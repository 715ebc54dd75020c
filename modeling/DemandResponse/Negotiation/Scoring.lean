import DemandResponse.Negotiation.Proposal

/-!
# Scoring bids

The best bid is the first of those with the greatest score. A score is computed once per bid, in
the order of the bids, by a function that may keep a state or fault; bids without a score are
unacceptable. The two standard rules look at the amounts alone.
-/

namespace DemandResponse.Negotiation

variable {m : Type → Type} [Monad m] {P : Type}

/-- The better of the best bid so far and a new one; the earlier of equals stays. -/
def better (best : Option (Decimal × P)) (score : Decimal) (bid : P) : Option (Decimal × P) :=
  match best with
  | none => some (score, bid)
  | some (top, kept) => if top < score then some (score, bid) else some (top, kept)

def selectFrom (score : P → m (Option Decimal)) (best : Option (Decimal × P)) :
    List P → m (Option (Decimal × P))
  | [] => pure best
  | bid :: rest => do
    match ← score bid with
    | none => selectFrom score best rest
    | some s => selectFrom score (better best s bid) rest

/-- The first bid of the greatest score. -/
def selectBest (score : P → m (Option Decimal)) (bids : List P) : m (Option P) := do
  let best ← selectFrom score none bids
  return best.map Prod.snd

variable [Proposal P]

/-- The score of closeness: the negated distance from the amount that is wanted. -/
def closeness (wanted : Decimal) (bid : P) : Except Fault (Option Decimal) :=
  (Fault.decimalDifferenceOverflow.ifNone ((Proposal.target bid).sub wanted)).map
    fun difference => some difference.abs.neg

/-- The bid nearest to the amount of a description. -/
def closestToTarget (bids : List P) (description : P) : Except Fault (Option P) :=
  selectBest (closeness (Proposal.target description)) bids

/-- The score of thrift: the negated amount, if it covers what is wanted. -/
def thrift (wanted : Decimal) (bid : P) : Option Decimal :=
  if wanted ≤ Proposal.target bid then some (Proposal.target bid).neg else none

/-- The smallest bid that covers the amount of a description. -/
def smallestCovering (bids : List P) (description : P) : Option P :=
  Id.run (selectBest (fun bid => pure (thrift (Proposal.target description) bid)) bids)

def mostValued (bids : List WorkProposal) : Option WorkProposal :=
  Id.run (selectBest (fun bid => pure (some bid.valuation)) bids)

end DemandResponse.Negotiation
