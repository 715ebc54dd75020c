import DemandResponse.Apportionment
import DemandResponse.Name

/-!
# Distributing targets

A distributor keeps, per participant and in the order of registration, the band last announced
or polled. Polling asks every participant for its band; signalling apportions an imbalance over
the bands on record and hands every participant its share, also a share of zero. A fault in one
participant ends the round and leaves what the earlier ones have done.
-/

namespace DemandResponse

/-- A party that accepts targets. What it can do may depend on a world `σ` that asking it leaves
alone. -/
class Participant (P : Type) (σ : outParam Type) where
  capacity : P → σ → Attempt P Band
  receive : P → Tick → Power → P

/-- A participant under its name, with the band on record. -/
structure Registration (P : Type) where
  id : ParticipantId
  participant : P
  band : Band

/-- A share handed to a participant. -/
structure Signal where
  participant : ParticipantId
  tick : Tick
  value : Power
  deriving DecidableEq, Repr

inductive RegistryError where
  | unknown (id : ParticipantId)
  | alreadyRegistered (id : ParticipantId)
  deriving DecidableEq, Repr

def RegistryError.message : RegistryError → String
  | .unknown id =>
    let name := id.text
    s!"participant {name} is not registered with this distributor"
  | .alreadyRegistered id =>
    let name := id.text
    s!"participant {name} is already registered with this distributor"

structure Distributor (P : Type) where
  registrations : List (Registration P)

namespace Distributor

variable {P : Type}

def empty : Distributor P := ⟨[]⟩

def find? (d : Distributor P) (id : ParticipantId) : Option (Registration P) :=
  d.registrations.find? fun r => r.id = id

def contains (d : Distributor P) (id : ParticipantId) : Bool := (d.find? id).isSome

def size (d : Distributor P) : Nat := d.registrations.length

def participants (d : Distributor P) : List ParticipantId := d.registrations.map (·.id)

def bands (d : Distributor P) : List Band := d.registrations.map (·.band)

/-- Add a participant under a fresh name. -/
def register (d : Distributor P) (id : ParticipantId) (participant : P) (band : Band) :
    Except RegistryError (Distributor P) :=
  if d.contains id then .error (.alreadyRegistered id)
  else .ok ⟨d.registrations ++ [⟨id, participant, band⟩]⟩

def registration (d : Distributor P) (id : ParticipantId) :
    Except RegistryError (Registration P) :=
  match d.find? id with
  | some r => .ok r
  | none => .error (.unknown id)

def band (d : Distributor P) (id : ParticipantId) : Except RegistryError Band :=
  (d.registration id).map (·.band)

/-- Replace the first registration of a name. -/
def replace (r : Registration P) : List (Registration P) → List (Registration P)
  | [] => []
  | first :: rest => if first.id = r.id then r :: rest else first :: replace r rest

def updateBand (d : Distributor P) (id : ParticipantId) (band : Band) :
    Except RegistryError (Distributor P) :=
  (d.registration id).map fun r => ⟨replace { r with band } d.registrations⟩

/-- Work on the participant of a name. -/
def access {α : Type} (d : Distributor P) (id : ParticipantId) (use : P → α × P) :
    Except RegistryError (α × Distributor P) :=
  (d.registration id).map fun r =>
    let (answer, participant) := use r.participant
    (answer, ⟨replace { r with participant } d.registrations⟩)

variable {σ : Type} [Participant P σ]

def pollEach (world : σ) : List (Registration P) → Attempt (List (Registration P)) Unit
  | [] => (.ok (), [])
  | r :: rest =>
    match Participant.capacity r.participant world with
    | (.error fault, participant) => (.error fault, { r with participant } :: rest)
    | (.ok band, participant) =>
      let (answer, rest') := pollEach world rest
      (answer, { r with participant, band } :: rest')

def poll (d : Distributor P) (world : σ) : Attempt (Distributor P) Unit :=
  let (answer, registrations) := pollEach world d.registrations
  (answer, ⟨registrations⟩)

def fraction (d : Distributor P) (imbalance : Power) : Except Fault Decimal :=
  Apportionment.fraction imbalance d.bands

def handOut (fraction : Decimal) (tick : Tick) (imbalance : Power) :
    List (Registration P) → Attempt (List (Registration P)) (List Signal)
  | [] => (.ok [], [])
  | r :: rest =>
    match Apportionment.share fraction imbalance r.band with
    | .error fault => (.error fault, r :: rest)
    | .ok value =>
      let (answer, rest') := handOut fraction tick imbalance rest
      (answer.map (⟨r.id, tick, value⟩ :: ·),
        { r with participant := Participant.receive r.participant tick value } :: rest')

def signal (d : Distributor P) (tick : Tick) (imbalance : Power) :
    Attempt (Distributor P) (List Signal) :=
  match d.fraction imbalance with
  | .error fault => (.error fault, d)
  | .ok fraction =>
    let (answer, registrations) := handOut fraction tick imbalance d.registrations
    (answer, ⟨registrations⟩)

def afterTick (d : Distributor P) (world : σ) (tick : Tick) (imbalance : Power) :
    Attempt (Distributor P) (List Signal) :=
  match d.poll world with
  | (.error fault, d') => (.error fault, d')
  | (.ok (), d') => d'.signal tick imbalance

end Distributor

end DemandResponse
