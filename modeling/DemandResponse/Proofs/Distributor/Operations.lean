import DemandResponse.Proofs.Distributor.Limits
import DemandResponse.Proofs.Distributor.Registry

/-!
# The operations of a distributor

Whatever is done with a distributor, it is refused by name and does nothing, or it is done and
goes registration by registration. Over valid bands nothing breaks. `Effect` lists all that can
come of an operation.
-/

namespace DemandResponse

/-- A participant that keeps what it receives, and how often it is asked for its capacity. -/
class Recording (P : Type) {σ : outParam Type} [Participant P σ] where
  log : P → List (Tick × Power)
  asked : P → Nat
  log_receive (p : P) (tick : Tick) (value : Power) :
    log (Participant.receive p tick value) = log p ++ [(tick, value)]
  asked_receive (p : P) (tick : Tick) (value : Power) :
    asked (Participant.receive p tick value) = asked p
  log_capacity (p : P) (world : σ) : log (Participant.capacity p world).2 = log p
  asked_capacity (p : P) (world : σ) : asked (Participant.capacity p world).2 = asked p + 1

instance : Recording Rehearsal.Recorder where
  log r := r.received
  asked r := r.polls
  log_receive _ _ _ := rfl
  asked_receive _ _ _ := rfl
  log_capacity _ _ := rfl
  asked_capacity _ _ := rfl

namespace Distributor

open Apportionment

/-- What is done with a distributor. Every poll finds a world of its own. -/
inductive Operation (P σ : Type) where
  | register (id : ParticipantId) (participant : P) (band : Band)
  | updateBand (id : ParticipantId) (band : Band)
  | readBand (id : ParticipantId)
  | look (id : ParticipantId)
  | adjust (id : ParticipantId) (change : P → P)
  | poll (world : σ)
  | signal (tick : Tick) (imbalance : Power)
  | afterTick (world : σ) (tick : Tick) (imbalance : Power)

/-- What a distributor answers. -/
inductive Answer (P : Type) where
  | done
  | band (band : Band)
  | participant (participant : P)
  | signals (signals : List Signal)

/-- Why it does not: by its rules, or because something broke. -/
inductive Obstacle where
  | refused (error : RegistryError)
  | broken (fault : Fault)

variable {P σ : Type} [Participant P σ]

/-- Carry out an operation. One that is refused does nothing. -/
def perform (d : Distributor P) : Operation P σ → Except Obstacle (Answer P) × Distributor P
  | .register id participant band =>
    match d.register id participant band with
    | .error error => (.error (.refused error), d)
    | .ok d' => (.ok .done, d')
  | .updateBand id band =>
    match d.updateBand id band with
    | .error error => (.error (.refused error), d)
    | .ok d' => (.ok .done, d')
  | .readBand id =>
    match d.band id with
    | .error error => (.error (.refused error), d)
    | .ok band => (.ok (.band band), d)
  | .look id =>
    match d.registration id with
    | .error error => (.error (.refused error), d)
    | .ok r => (.ok (.participant r.participant), d)
  | .adjust id change =>
    match d.access id fun p => ((), change p) with
    | .error error => (.error (.refused error), d)
    | .ok ((), d') => (.ok .done, d')
  | .poll world =>
    match d.poll world with
    | (.error fault, d') => (.error (.broken fault), d')
    | (.ok (), d') => (.ok .done, d')
  | .signal tick imbalance =>
    match d.signal tick imbalance with
    | (.error fault, d') => (.error (.broken fault), d')
    | (.ok signals, d') => (.ok (.signals signals), d')
  | .afterTick world tick imbalance =>
    match d.afterTick world tick imbalance with
    | (.error fault, d') => (.error (.broken fault), d')
    | (.ok signals, d') => (.ok (.signals signals), d')

/-- The signals among what a distributor answers. -/
def signalsOf : Except Obstacle (Answer P) → List Signal
  | .ok (.signals signals) => signals
  | _ => []

def returned (d : Distributor P) (op : Operation P σ) : List Signal := signalsOf (d.perform op).1

/-- The band that a participant answers to a poll, if it answers. -/
def reported (world : σ) (p : P) : Band := ((Participant.capacity p world).1.toOption).getD .zero

/-- Every participant answers a poll, with a valid band. -/
def Answering (d : Distributor P) (world : σ) : Prop :=
  ∀ r ∈ d.registrations, ∃ band,
    (Participant.capacity r.participant world).1 = .ok band ∧ band.Valid

/-- What bands and imbalances may be, and what a visit to a participant leaves alone. -/
def Operation.Admissible [Recording P] (d : Distributor P) : Operation P σ → Prop
  | .register _ _ band => band.Valid
  | .updateBand _ band => band.Valid
  | .adjust _ change => ∀ p, Recording.log (change p) = Recording.log p ∧
      Recording.asked (change p) = Recording.asked p
  | .poll world => d.Answering world
  | .signal _ imbalance => capacity imbalance d.bands ≤ 10 ^ 26
  | .afterTick world _ imbalance =>
    d.Answering world ∧ capacity imbalance (d.poll world).2.bands ≤ 10 ^ 26
  | _ => True

/-- Why an operation is refused among some names. -/
def Operation.refusal? (names : List ParticipantId) : Operation P σ → Option RegistryError
  | .register id _ _ => if id ∈ names then some (.alreadyRegistered id) else none
  | .updateBand id _ => if id ∈ names then none else some (.unknown id)
  | .readBand id => if id ∈ names then none else some (.unknown id)
  | .look id => if id ∈ names then none else some (.unknown id)
  | .adjust id _ => if id ∈ names then none else some (.unknown id)
  | _ => none

end Distributor

namespace Registration

variable {P σ : Type} [Participant P σ]

/-- A registration when a band is announced for a name. -/
def announcing (id : ParticipantId) (band : Band) (r : Registration P) : Registration P :=
  if r.id = id then { r with band } else r

/-- A registration when the participant of a name is visited. -/
def visiting (id : ParticipantId) (change : P → P) (r : Registration P) : Registration P :=
  if r.id = id then { r with participant := change r.participant } else r

def polled (world : σ) (r : Registration P) : Registration P :=
  { r with
    participant := (Participant.capacity r.participant world).2
    band := Distributor.reported world r.participant }

def signalled (tick : Tick) (value : Band → Power) (r : Registration P) : Registration P :=
  { r with participant := Participant.receive r.participant tick (value r.band) }

/-- The signal that a registration is due in a round. -/
def due (tick : Tick) (value : Band → Power) (r : Registration P) : Signal :=
  ⟨r.id, tick, value r.band⟩

omit [Participant P σ] in
theorem id_announcing (id : ParticipantId) (band : Band) (r : Registration P) :
    (r.announcing id band).id = r.id := by
  unfold announcing
  split <;> rfl

omit [Participant P σ] in
theorem id_visiting (id : ParticipantId) (change : P → P) (r : Registration P) :
    (r.visiting id change).id = r.id := by
  unfold visiting
  split <;> rfl

end Registration

namespace Distributor

open Apportionment

variable {P σ : Type} [Participant P σ]

/-- A distributor once everybody has been polled. -/
def asked (d : Distributor P) (world : σ) : Distributor P :=
  ⟨d.registrations.map (Registration.polled world)⟩

/-- A distributor once everybody has been given the value for their band. -/
def handed (d : Distributor P) (tick : Tick) (value : Band → Power) : Distributor P :=
  ⟨d.registrations.map (Registration.signalled tick value)⟩

/-- One signal for everybody, in the order of registration. -/
def dues (d : Distributor P) (tick : Tick) (value : Band → Power) : List Signal :=
  d.registrations.map (Registration.due tick value)

/-- All that an operation can come to. -/
inductive Effect (d : Distributor P) :
    Operation P σ → Except Obstacle (Answer P) → Distributor P → Prop where
  | refused {op error} (h : op.refusal? d.participants = some error) :
    Effect d op (.error (.refused error)) d
  | registered {id participant band} (hid : id ∉ d.participants) :
    Effect d (.register id participant band) (.ok .done)
      ⟨d.registrations ++ [⟨id, participant, band⟩]⟩
  | updated {id band} (hid : id ∈ d.participants) :
    Effect d (.updateBand id band) (.ok .done) ⟨d.registrations.map (.announcing id band)⟩
  | read {r} (hr : r ∈ d.registrations) : Effect d (.readBand r.id) (.ok (.band r.band)) d
  | look {r} (hr : r ∈ d.registrations) : Effect d (.look r.id) (.ok (.participant r.participant)) d
  | adjusted {id change} (hid : id ∈ d.participants) :
    Effect d (.adjust id change) (.ok .done) ⟨d.registrations.map (.visiting id change)⟩
  | polled {world} (h : d.Answering world) : Effect d (.poll world) (.ok .done) (d.asked world)
  | signalled {tick imbalance} (value : Band → Power) :
    Effect d (.signal tick imbalance) (.ok (.signals (d.dues tick value))) (d.handed tick value)
  | ticked {world tick imbalance} (value : Band → Power) (h : d.Answering world) :
    Effect d (.afterTick world tick imbalance) (.ok (.signals ((d.asked world).dues tick value)))
      ((d.asked world).handed tick value)

variable {d : Distributor P} {world : σ} {op : Operation P σ}

theorem Answering.reported_eq (h : d.Answering world) {r : Registration P}
    (hr : r ∈ d.registrations) :
    (Participant.capacity r.participant world).1 = .ok (reported world r.participant) ∧
      (reported world r.participant).Valid := by
  obtain ⟨band, hband, hvalid⟩ := h r hr
  rw [reported, hband]
  exact ⟨rfl, hvalid⟩

theorem Answering.poll_eq (h : d.Answering world) : d.poll world = (.ok (), d.asked world) := by
  have heach := @pollEach_eq P σ d.registrations _ world (reported world)
    (fun p => (Participant.capacity p world).2) fun r hr => Prod.ext (h.reported_eq hr).1 rfl
  rw [poll, heach]
  rfl

theorem Answering.valid_asked (h : d.Answering world) :
    ∀ band ∈ (d.asked world).bands, band.Valid := by
  intro band hband
  rw [bands, asked, List.map_map] at hband
  obtain ⟨r, hr, rfl⟩ := List.mem_map.mp hband
  exact (h.reported_eq hr).2

/-- Nothing breaks, and what is not refused is done. -/
theorem effect [Recording P] (hnodup : d.participants.Nodup)
    (hvalid : ∀ band ∈ d.bands, band.Valid) (hop : op.Admissible d) :
    Effect d op (d.perform op).1 (d.perform op).2 := by
  cases op with
  | register id participant band =>
    rw [perform, register]
    by_cases hid : id ∈ d.participants
    · rw [if_pos (contains_iff.mpr hid)]
      exact .refused (if_pos hid)
    · rw [if_neg fun h => hid (contains_iff.mp h)]
      exact .registered hid
  | updateBand id band =>
    rw [perform]
    by_cases hid : id ∈ d.participants
    · obtain ⟨r, hr, rfl⟩ := List.mem_map.mp hid
      rw [updateBand_of_mem hnodup hr]
      exact .updated hid
    · rw [updateBand, registration_of_not_mem hid]
      exact .refused (if_neg hid)
  | readBand id =>
    rw [perform, band]
    by_cases hid : id ∈ d.participants
    · obtain ⟨r, hr, rfl⟩ := List.mem_map.mp hid
      rw [registration_of_mem hnodup hr]
      exact .read hr
    · rw [registration_of_not_mem hid]
      exact .refused (if_neg hid)
  | look id =>
    rw [perform]
    by_cases hid : id ∈ d.participants
    · obtain ⟨r, hr, rfl⟩ := List.mem_map.mp hid
      rw [registration_of_mem hnodup hr]
      exact .look hr
    · rw [registration_of_not_mem hid]
      exact .refused (if_neg hid)
  | adjust id change =>
    rw [perform]
    by_cases hid : id ∈ d.participants
    · obtain ⟨r, hr, rfl⟩ := List.mem_map.mp hid
      rw [access_of_mem hnodup hr]
      exact .adjusted hid
    · rw [access, registration_of_not_mem hid]
      exact .refused (if_neg hid)
  | poll world =>
    rw [perform, hop.poll_eq]
    exact .polled hop
  | signal tick imbalance =>
    obtain ⟨f, value, _, hsignal, _⟩ := signal_limited d tick imbalance hvalid hop
    rw [perform, hsignal]
    exact .signalled value
  | afterTick world tick imbalance =>
    obtain ⟨hanswering, hlimit⟩ := hop
    rw [hanswering.poll_eq] at hlimit
    obtain ⟨f, value, _, hsignal, _⟩ :=
      signal_limited (d.asked world) tick imbalance hanswering.valid_asked hlimit
    rw [perform, afterTick, hanswering.poll_eq]
    simp only [hsignal]
    exact .ticked value hanswering

end Distributor

end DemandResponse
