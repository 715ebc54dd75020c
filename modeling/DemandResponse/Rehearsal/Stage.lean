import DemandResponse.Negotiation.Round
import DemandResponse.Negotiation.Scoring

/-!
# Scripted parties

Stand-ins for the parties of a negotiation. They act on a stage, which keeps a journal of what
reached them, where each of them is in its script, and the works that are still to be put out. A
script may hold a proposal that cannot be built; the fault then arises when its turn has come,
after the journal entry and after the script has moved on.
-/

namespace DemandResponse.Rehearsal

open Negotiation (WorkProposal Initiator Responder Net)

/-- A proposal of a script, or the fault that building it ends in. -/
abbrev Built := Except Fault WorkProposal

inductive Reply where
  | refuse
  | echo
  | bid (proposal : Built)

inductive Completion where
  | done
  | failure
  | instead (proposal : Built)

/-- What a responder does when its turn comes. -/
inductive Script where
  /-- Go through two lists of replies; the last reply of each repeats. -/
  | fixed (answers : List Reply) (completions : List Completion)
  /-- Bid a multiple of what is called for, up to a headroom that awards use up. -/
  | partner (headroom factor valuation : Decimal)

inductive Event where
  | work
  | call (name description : String)
  | accept (name award : String)
  | reject (name proposal : String)
  | absorb (name : String) (amount headroom : Decimal)
  | find (count : Nat)
  | update (best : String)
  | done (proposal : String)
  | noSolution

/-- The common world of all scripted parties. -/
structure Stage where
  journal : List Event
  scripts : List Script
  /-- The works to be put out; a gap is a round without work. -/
  works : List (Option Built)
  work : Option WorkProposal

namespace Stage

def record (stage : Stage) (event : Event) : Stage :=
  { stage with journal := stage.journal ++ [event] }

/-- The script of a responder; one that is unknown refuses. -/
def script (stage : Stage) (number : Nat) : Script := stage.scripts.getD number (.fixed [] [])

def setScript (stage : Stage) (number : Nat) (script : Script) : Stage :=
  { stage with scripts := stage.scripts.set number script }

end Stage

/-- A list without its head, except that the last element stays. -/
def turn {α : Type} : List α → List α
  | _ :: next :: rest => next :: rest
  | last => last

/-- The lesser of two decimals, and the first of equal ones. -/
def lesser (a b : Decimal) : Decimal := if a ≤ b then a else b

def offerFrom (name : String) (headroom factor valuation : Decimal) (description : WorkProposal) :
    Except Fault (Option WorkProposal) :=
  if headroom ≤ 0 then .ok none
  else do
    let wanted ← Fault.decimalProductOverflow.ifNone (description.target.mul factor)
    return some ((WorkProposal.new name (lesser headroom wanted)).withValuation valuation)

/-- Reply to a call as the script says. -/
def callScripted (name : String) (number : Nat) (description : WorkProposal) (stage : Stage) :
    Attempt Stage (Option WorkProposal) :=
  match stage.script number with
  | .fixed answers completions =>
    let stage := (stage.record (.call name description.text)).setScript number
      (.fixed (turn answers) completions)
    match answers.head? with
    | none => (.ok none, stage)
    | some .refuse => (.ok none, stage)
    | some .echo => (.ok (some description), stage)
    | some (.bid proposal) => (proposal.map some, stage)
  | .partner headroom factor valuation =>
    (offerFrom name headroom factor valuation description, stage)

/-- Reply to an award as the script says. -/
def acceptScripted (name : String) (number : Nat) (award : WorkProposal) (stage : Stage) :
    Attempt Stage (Option WorkProposal) :=
  match stage.script number with
  | .fixed answers completions =>
    let stage := (stage.record (.accept name award.text)).setScript number
      (.fixed answers (turn completions))
    match completions.head? with
    | none => (.ok (some award), stage)
    | some .done => (.ok (some award), stage)
    | some .failure => (.ok none, stage)
    | some (.instead proposal) => (proposal.map some, stage)
  | .partner headroom factor valuation =>
    if headroom < award.target then (.ok none, stage)
    else
      match headroom.sub award.target with
      | none => (.error .decimalDifferenceOverflow, stage)
      | some left =>
        (.ok (some award), (stage.setScript number (.partner left factor valuation)).record
          (.absorb name award.target left))

/-- Only a party with fixed replies takes note of a rejection. -/
def rejectScripted (name : String) (number : Nat) (proposal : WorkProposal) (stage : Stage) :
    Attempt Stage Unit :=
  match stage.script number with
  | .fixed _ _ => (.ok (), stage.record (.reject name proposal.text))
  | .partner _ _ _ => (.ok (), stage)

/-- The responder of a name that follows the script of a number. -/
def responder (name : String) (number : Nat) : Responder Stage WorkProposal where
  call := callScripted name number
  accept := acceptScripted name number
  reject := rejectScripted name number

/-- Have a scripted responder join. -/
def join (net : Net Stage WorkProposal) (stage : Stage) (name : String) (script : Script) :
    Nat × Net Stage WorkProposal × Stage :=
  let (number, net) := net.register (responder name stage.scripts.length)
  (number, net, { stage with scripts := stage.scripts ++ [script] })

inductive Choice where
  | nothing
  | closest
  | covering
  | valuation
  | last
  | exactly (proposal : Built)

/-- The bid that a choice falls on. -/
def Choice.pick (choice : Choice) (bids : List WorkProposal) (description : WorkProposal) :
    Except Fault (Option WorkProposal) :=
  match choice with
  | .nothing => .ok none
  | .closest => Negotiation.closestToTarget bids description
  | .covering => .ok (Negotiation.smallestCovering bids description)
  | .valuation => .ok (Negotiation.mostValued bids)
  | .last => .ok bids.getLast?
  | .exactly proposal => proposal.map some

inductive Rescope where
  /-- To the amount of the work. -/
  | need
  /-- To the lesser of its own amount and that of the work. -/
  | atMost
  | exactly (proposal : Built)

def Rescope.adjust (rescope : Rescope) (best work : WorkProposal) : Built :=
  match rescope with
  | .need => .ok (best.withTarget work.target)
  | .atMost => .ok (best.withTarget (lesser best.target work.target))
  | .exactly proposal => proposal

def describeScripted (stage : Stage) : Attempt Stage (Option WorkProposal) :=
  let stage := stage.record .work
  match stage.works with
  | [] => (.ok none, stage)
  | none :: rest => (.ok none, { stage with works := rest })
  | some (.error fault) :: rest => (.error fault, { stage with works := rest })
  | some (.ok work) :: rest => (.ok (some work), { stage with works := rest, work := some work })

/-- The initiator of a choice and, possibly, a way to rescope. -/
def initiator (choice : Choice) (rescope : Option Rescope) : Initiator Stage WorkProposal where
  describe := describeScripted
  choose bids description stage :=
    (choice.pick bids description, stage.record (.find bids.length))
  rescope best stage :=
    match rescope with
    | none => (.ok best, stage)
    | some rescope =>
      (rescope.adjust best (stage.work.getD best), stage.record (.update best.text))
  workDone proposal stage := (.ok (), stage.record (.done proposal.text))
  noSolution stage := (.ok (), stage.record .noSolution)

end DemandResponse.Rehearsal
