import DemandResponse.Distributor
import DemandResponse.Settings

/-!
# Aggregators

An aggregator is a participant that stands for several sites. Asked for its capacity it gathers
what the sites offer, keeps that book, and reports what the book can deliver. On its own ticks it
matches the target last received against the book last gathered, and dispatches the outcome. It
matches on the first tick and on every following one whose count is a multiple of its frequency.
-/

namespace DemandResponse

open Matching (Matcher Outcome dispatch)

/-- The sites of an aggregator, with the target and the book it works on. -/
structure Aggregator (σ : Type) where
  sites : List (SiteId × Site σ)
  matcher : Matcher
  frequency : Nat
  /-- How many ticks there were. Below `UInt64.size` a word of 64 bits counts the same, as
  `due_eq_word` says; a run that is longer than that is out of scope. -/
  ticks : Nat
  target : Power
  book : Book

namespace Aggregator

variable {σ : Type}

def new (settings : Settings) : Aggregator σ where
  sites := []
  matcher := Matcher.new settings.strategy
  frequency := max settings.frequency.toNat 1
  ticks := 0
  target := 0
  book := Book.empty

/-- Whether a site's name is new, and the aggregator that knows the site. -/
def register (a : Aggregator σ) (id : SiteId) (site : Site σ) : Bool × Aggregator σ :=
  match a.matcher.register id with
  | (true, matcher) => (true, { a with matcher, sites := a.sites ++ [(id, site)] })
  | (false, _) => (false, a)

/-- The offers that the sites put forward at present. -/
def gather (a : Aggregator σ) (world : σ) : Except Fault Book :=
  match Book.extendAll (a.sites.map fun s => (s.1, s.2.offers world)) .empty with
  | (.ok (), book) => .ok book
  | (.error fault, _) => .error fault

/-- Gather a book, keep it, and report what it can deliver. -/
def capacity (a : Aggregator σ) (world : σ) : Attempt (Aggregator σ) Band :=
  match a.gather world with
  | .error fault => (.error fault, a)
  | .ok book => (Band.new (book.deliverable .down) (book.deliverable .up), { a with book })

def receive (a : Aggregator σ) (target : Power) : Aggregator σ := { a with target }

def due (a : Aggregator σ) : Bool := a.ticks % a.frequency == 0

/-- As long as a word holds the count of ticks, the word tells the same as the count. -/
theorem due_eq_word (a : Aggregator σ) (hticks : a.ticks < UInt64.size)
    (hfrequency : a.frequency < UInt64.size) :
    a.due = (UInt64.ofNat a.ticks % UInt64.ofNat a.frequency == 0) := by
  rw [due, Bool.eq_iff_iff, beq_iff_eq, beq_iff_eq, ← UInt64.toNat_inj, UInt64.toNat_mod,
    UInt64.toNat_ofNat_of_lt' hticks, UInt64.toNat_ofNat_of_lt' hfrequency]
  rfl

/-- Count a tick, and match and dispatch if it is due. -/
def tick (a : Aggregator σ) (now : Tick) (world : σ) :
    Attempt (Aggregator σ × σ) (Option Outcome) :=
  let counted := { a with ticks := a.ticks + 1 }
  if a.due then
    match a.matcher.meet now a.target a.book with
    | .error fault => (.error fault, counted, world)
    | .ok outcome => (.ok (some outcome), counted, dispatch outcome a.sites world)
  else (.ok none, counted, world)

instance : Participant (Aggregator σ) σ where
  capacity := capacity
  receive a _ target := a.receive target

end Aggregator

namespace Distributor

variable {σ : Type}

/-- One tick of the aggregators of some registrations, in order. -/
def tickEach (now : Tick) (world : σ) : List (Registration (Aggregator σ)) →
    Attempt (List (Registration (Aggregator σ)) × σ) (List (ParticipantId × Option Outcome))
  | [] => (.ok [], [], world)
  | r :: rest =>
    match r.participant.tick now world with
    | (.error fault, participant, world') => (.error fault, { r with participant } :: rest, world')
    | (.ok outcome, participant, world') =>
      let (answer, rest', world'') := tickEach now world' rest
      (answer.map ((r.id, outcome) :: ·), { r with participant } :: rest', world'')

def tick (d : Distributor (Aggregator σ)) (now : Tick) (world : σ) :
    Attempt (Distributor (Aggregator σ) × σ) (List (ParticipantId × Option Outcome)) :=
  let (answer, registrations, world') := tickEach now world d.registrations
  (answer, ⟨registrations⟩, world')

end Distributor

end DemandResponse
