import DemandResponse.Decimal.Text
import DemandResponse.Power

/-!
# Proposals

What is exchanged in a negotiation: the description of the work, the bids for it, and the award.
A proposal states an amount of work and may bound it in time. Two proposals are the same if they
agree in every part, amounts by value. `WorkProposal.withWindow` accepts no window that closes
before it opens; a proposal taken over from a record may have any marks, also only one.
-/

namespace DemandResponse.Negotiation

/-- What a negotiation needs to know of a proposal. -/
class Proposal (P : Type) where
  target : P → Decimal
  /-- The first tick to which the work is bound. -/
  beginMark : P → Option Tick := fun _ => none
  /-- The last tick to which the work is bound. -/
  endMark : P → Option Tick := fun _ => none
  same : P → P → Bool

/-- A proposal is bound in time if it has either mark. -/
def hasTimeConstraints {P : Type} [Proposal P] (p : P) : Bool :=
  (Proposal.beginMark p).isSome || (Proposal.endMark p).isSome

structure Amount where
  target : Decimal
  deriving DecidableEq

instance : Proposal Amount where
  target p := p.target
  same p q := p.target.same q.target

structure WorkProposal where
  description : String
  target : Decimal
  /-- What the work is worth to whoever puts the proposal forward. -/
  valuation : Decimal
  beginMark : Option Tick
  endMark : Option Tick
  deriving DecidableEq

namespace WorkProposal

def new (description : String) (target : Decimal) : WorkProposal :=
  ⟨description, target, 0, none, none⟩

def withValuation (p : WorkProposal) (valuation : Decimal) : WorkProposal := { p with valuation }

def withWindow (p : WorkProposal) (first last : Tick) : Except Fault WorkProposal :=
  if first ≤ last then .ok { p with beginMark := some first, endMark := some last }
  else .error (.invertedWindow first last)

def withTarget (p : WorkProposal) (target : Decimal) : WorkProposal := { p with target }

/-- The one-line description of a proposal; the window is shown if it has both ends. -/
def text (p : WorkProposal) : String :=
  let amount := p.target.text
  match p.beginMark, p.endMark with
  | some first, some last => s!"{p.description} ({amount} in [{first}, {last}])"
  | _, _ => s!"{p.description} ({amount})"

/-- Equality of all parts, amounts by value. -/
def same (p q : WorkProposal) : Bool :=
  p.description == q.description && p.target.same q.target && p.valuation.same q.valuation &&
    p.beginMark == q.beginMark && p.endMark == q.endMark

instance : Proposal WorkProposal where
  target p := p.target
  beginMark p := p.beginMark
  endMark p := p.endMark
  same := same

end WorkProposal

end DemandResponse.Negotiation
