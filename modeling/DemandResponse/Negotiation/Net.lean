import DemandResponse.Negotiation.Party

/-!
# Negotiation rounds

A round calls every responder for a bid, in the order of registration; when all have answered
the initiator chooses, the losers are rejected and the winner is awarded the work. Messages pass
through one queue and are handled oldest first. What a round has entered, sent and collected
stays on record until the next round begins, also when a party faults in the middle of it; only
the present phase is never reset.

Every message that is handled lowers the `load` of the net, which counts what the queue can
still give rise to. So a round ends.
-/

namespace DemandResponse.Negotiation

/-- What passes between the initiator and a responder, known by its number. -/
inductive Message (P : Type) where
  | callForProposal (responder : Nat) (description : P)
  | refuse (responder : Nat)
  | propose (responder : Nat) (proposal : P)
  | rejectProposal (responder : Nat) (proposal : P)
  | acceptProposal (responder : Nat) (proposal : P)
  | informDone (responder : Nat) (proposal : P)
  | failure (responder : Nat)

inductive Phase where
  | idle
  | soliciting
  | collecting
  | evaluating
  | confirming
  | noSolution
  deriving DecidableEq, Repr

def Phase.name : Phase → String
  | .idle => "Idle"
  | .soliciting => "Soliciting"
  | .collecting => "Collecting"
  | .evaluating => "Evaluating"
  | .confirming => "Confirming"
  | .noSolution => "NoSolution"

inductive Result (P : Type) where
  | noWork
  /-- Nobody was awarded the work. -/
  | noSolution
  /-- A responder was awarded a proposal, and completed it or failed. -/
  | awarded (responder : Nat) (proposal : P) (completed : Bool)

/-- The responders, and what is on record of the present round. -/
structure Net (W P : Type) where
  responders : List (Responder W P) := []
  phase : Phase := .idle
  /-- Messages to be handled, oldest first. -/
  queue : List (Message P) := []
  description : Option P := none
  /-- The bids collected so far, and who made them. -/
  proposals : List (Nat × P) := []
  answered : Nat := 0
  /-- The work in hand, and who was awarded it. -/
  award : Option (Nat × P) := none
  result : Option (Result P) := none
  transitions : List Phase := []
  /-- How many answers were missing when each phase was entered. -/
  pending : List Nat := []
  transcript : List (Message P) := []

def responderText (number : Nat) : String := s!"responder-{number}"

/-- How many messages a message and its consequences amount to, choosing apart. -/
def Message.weight {P : Type} : Message P → Nat
  | .callForProposal _ _ => 3
  | .refuse _ => 1
  | .propose _ _ => 2
  | .rejectProposal _ _ => 1
  | .acceptProposal _ _ => 2
  | .informDone _ _ => 1
  | .failure _ => 1

namespace Net

variable {W P : Type}

/-- Add a responder; its number is its position. -/
def register (net : Net W P) (responder : Responder W P) : Nat × Net W P :=
  (net.responders.length, { net with responders := net.responders ++ [responder] })

/-- Forget the last round, but not the present phase. -/
def reset (net : Net W P) : Net W P := { responders := net.responders, phase := net.phase }

def enter (net : Net W P) (phase : Phase) : Net W P :=
  { net with
    phase
    transitions := net.transitions ++ [phase]
    pending := net.pending ++ [net.responders.length - net.answered] }

def send (net : Net W P) (message : Message P) : Net W P :=
  { net with queue := net.queue ++ [message] }

def responder (net : Net W P) (number : Nat) : Responder W P :=
  net.responders.getD number .silent

def announce (net : Net W P) (description : P) : Net W P :=
  let calls := (List.range net.responders.length).map (Message.callForProposal · description)
  { net.enter .soliciting with queue := calls, description := some description }.enter .collecting

def giveUp (initiator : Initiator W P) (net : Net W P) (w : W) : Attempt (Net W P × W) Unit :=
  match initiator.noSolution w with
  | (.error fault, w) => (.error fault, net.enter .noSolution, w)
  | (.ok (), w) => (.ok (), { net.enter .noSolution with result := some .noSolution }, w)

/-- The rejections of all bids but the one at a position. -/
def rejections (winner : Nat) (proposals : List (Nat × P)) : List (Message P) :=
  (proposals.eraseIdx winner).map fun (responder, proposal) =>
    .rejectProposal responder proposal

/-- Reject the losers and award the chosen bid, rescoped, to the winner. -/
def awardTo (initiator : Initiator W P) (net : Net W P) (winner : Fin net.proposals.length)
    (best : P) (w : W) : Attempt (Net W P × W) Unit :=
  let responder := net.proposals[winner].1
  let rejecting := { net with queue := net.queue ++ rejections winner net.proposals }
  match initiator.rescope best w with
  | (.error fault, w) => (.error fault, rejecting, w)
  | (.ok award, w) =>
    let awarding := rejecting.send (.acceptProposal responder award)
    (.ok (), { awarding with award := some (responder, award) }.enter .confirming, w)

variable [Proposal P]

/-- Have the initiator choose among the collected bids. The winner is the first bid that is the
same as the one chosen; a choice that nobody made counts as none. -/
def evaluate (initiator : Initiator W P) (net : Net W P) (w : W) : Attempt (Net W P × W) Unit :=
  let net := net.enter .evaluating
  match net.description with
  | none => (.ok (), net, w)
  | some description =>
    if net.proposals.isEmpty then giveUp initiator net w
    else
      match initiator.choose (net.proposals.map Prod.snd) description w with
      | (.error fault, w) => (.error fault, net, w)
      | (.ok none, w) => giveUp initiator net w
      | (.ok (some best), w) =>
        match net.proposals.findFinIdx? fun bid => Proposal.same bid.2 best with
        | none => giveUp initiator net w
        | some winner => awardTo initiator net winner best w

/-- Count an answer, and evaluate after the last. -/
def countAnswer (initiator : Initiator W P) (net : Net W P) (w : W) :
    Attempt (Net W P × W) Unit :=
  let net := { net with answered := net.answered + 1 }
  if net.answered = net.responders.length then evaluate initiator net w else (.ok (), net, w)

def finish (net : Net W P) (completed : Bool) : Net W P :=
  match net.award with
  | none => net
  | some (responder, proposal) =>
    { net with award := none, result := some (.awarded responder proposal completed) }

def handle (initiator : Initiator W P) (message : Message P) (net : Net W P) (w : W) :
    Attempt (Net W P × W) Unit :=
  match message with
  | .callForProposal number description =>
    match (net.responder number).call description w with
    | (.error fault, w) => (.error fault, net, w)
    | (.ok none, w) => (.ok (), net.send (.refuse number), w)
    | (.ok (some proposal), w) => (.ok (), net.send (.propose number proposal), w)
  | .refuse _ => countAnswer initiator net w
  | .propose number proposal =>
    countAnswer initiator { net with proposals := net.proposals ++ [(number, proposal)] } w
  | .rejectProposal number proposal =>
    match (net.responder number).reject proposal w with
    | (answer, w) => (answer, net, w)
  | .acceptProposal number proposal =>
    match (net.responder number).accept proposal w with
    | (.error fault, w) => (.error fault, net, w)
    | (.ok (some done), w) => (.ok (), net.send (.informDone number done), w)
    | (.ok none, w) => (.ok (), net.send (.failure number), w)
  | .informDone _ proposal =>
    match initiator.workDone proposal w with
    | (.error fault, w) => (.error fault, net, w)
    | (.ok (), w) => (.ok (), net.finish true, w)
  | .failure _ => (.ok (), net.finish false, w)

end Net

end DemandResponse.Negotiation
