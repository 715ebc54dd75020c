import DemandResponse.Negotiation.Round
import DemandResponse.Proofs.Attempt
import Mathlib.Data.List.Nodup
import Mathlib.Data.List.Range

/-!
# The course of a round

A round told without messages, queue or counters: the responders are asked one after the other,
the initiator chooses, and either everybody goes home or the losers are told, the winner performs
and the initiator hears of it. `Course` is what was said in it, and `Course.transcript` how the
same is said in messages. Parties keep their state in a world that is handed from call to call.
-/

namespace DemandResponse.Negotiation

variable {W P : Type}

/-- To whom the work was awarded, the work as it was awarded, and what was reported done. -/
structure Award (P : Type) where
  winner : Nat
  agreed : P
  done : Option P

/-- What was said in a round with work; the answers stand in the order of registration. -/
structure Course (P : Type) where
  description : P
  answers : List (Option P)
  award : Option (Award P)

/-- The bids among some answers, each with the number of its responder. -/
def bidsOf (numbers : List Nat) (answers : List (Option P)) : List (Nat × P) :=
  (numbers.zip answers).filterMap fun (number, answer) => answer.map (number, ·)

/-- An answer as a message. -/
def replyOf (number : Nat) : Option P → Message P
  | none => .refuse number
  | some bid => .propose number bid

/-- The rejection of a bid. -/
def rejection (bid : Nat × P) : Message P := .rejectProposal bid.1 bid.2

/-- The winner's report as a message. -/
def Award.report (a : Award P) : Message P :=
  match a.done with
  | some work => .informDone a.winner work
  | none => .failure a.winner

/-- The bids that lost to an award. -/
def Award.losers (a : Award P) (bids : List (Nat × P)) : List (Nat × P) :=
  bids.filter fun bid => bid.1 ≠ a.winner

namespace Course

/-- How many responders were asked. -/
def size (c : Course P) : Nat := c.answers.length

def bids (c : Course P) : List (Nat × P) := bidsOf (List.range c.size) c.answers

def calls (c : Course P) : List (Message P) :=
  (List.range c.size).map (.callForProposal · c.description)

def replies (c : Course P) : List (Message P) :=
  List.zipWith replyOf (List.range c.size) c.answers

/-- What follows the answers: nothing, or the rejections, the award and the winner's report. -/
def closing (c : Course P) : List (Message P) :=
  match c.award with
  | none => []
  | some a => (a.losers c.bids).map rejection ++ [.acceptProposal a.winner a.agreed, a.report]

/-- The messages of a round, in the order in which they are handled. -/
def transcript (c : Course P) : List (Message P) := c.calls ++ c.replies ++ c.closing

/-- How the initiator learns that the round is over. -/
def result (c : Course P) : Result P :=
  match c.award with
  | none => .noSolution
  | some a => .awarded a.winner a.agreed a.done.isSome

/-- The phases of a round with work. -/
def transitions (c : Course P) : List Phase :=
  [.soliciting, .collecting, .evaluating,
    if c.award.isSome then .confirming else .noSolution, .idle]

/-- What a round leaves on record. -/
def net (c : Course P) (responders : List (Responder W P)) : Net W P where
  responders := responders
  description := some c.description
  proposals := c.bids
  answered := c.size
  transitions := c.transitions
  pending := [c.size, c.size, 0, 0, 0]
  transcript := c.transcript

end Course

/-- Ask some responders in order. -/
def askEach (description : P) : List (Responder W P) → W → Attempt W (List (Option P))
  | [], w => (.ok [], w)
  | responder :: rest, w =>
    andThen (responder.call description w) fun answer w =>
      andThen (askEach description rest w) fun answers w => (.ok (answer :: answers), w)

/-- Tell some bidders that they lost. -/
def rejectEach (responder : Nat → Responder W P) : List (Nat × P) → W → Attempt W Unit
  | [], w => (.ok (), w)
  | (number, bid) :: rest, w =>
    andThen ((responder number).reject bid w) fun _ w => rejectEach responder rest w

/-- Tell the initiator of work that was done. -/
def tell (initiator : Initiator W P) : Option P → W → Attempt W Unit
  | none, w => (.ok (), w)
  | some work, w => initiator.workDone work w

/-- The first bidder whose bid is the one chosen, and the choice. Without bids nobody is asked. -/
def chooseAmong [Proposal P] (initiator : Initiator W P) (description : P) (bids : List (Nat × P))
    (w : W) : Attempt W (Option (Nat × P)) :=
  if bids.isEmpty then (.ok none, w)
  else
    andThen (initiator.choose (bids.map Prod.snd) description w) fun choice w =>
      (.ok (choice.bind fun best =>
        (bids.find? fun bid => Proposal.same bid.2 best).map fun bid => (bid.1, best)), w)

/-- Award the chosen bid, tell the losers, and have the winner perform. -/
def perform (initiator : Initiator W P) (responder : Nat → Responder W P) (bids : List (Nat × P))
    (winner : Nat) (best : P) (w : W) : Attempt W (Award P) :=
  andThen (initiator.rescope best w) fun agreed w =>
    andThen (rejectEach responder (bids.filter fun bid => bid.1 ≠ winner) w) fun _ w =>
      andThen ((responder winner).accept agreed w) fun done w =>
        andThen (tell initiator done w) fun _ w => (.ok ⟨winner, agreed, done⟩, w)

/-- What follows the answers, without messages. -/
def conclude [Proposal P] (initiator : Initiator W P) (responder : Nat → Responder W P)
    (description : P) (bids : List (Nat × P)) (w : W) : Attempt W (Option (Award P)) :=
  andThen (chooseAmong initiator description bids w) fun winner w =>
    match winner with
    | none => andThen (initiator.noSolution w) fun _ w => (.ok none, w)
    | some (winner, best) =>
      andThen (perform initiator responder bids winner best w) fun award w => (.ok (some award), w)

/-- A round with work. -/
def course [Proposal P] (initiator : Initiator W P) (responders : List (Responder W P))
    (description : P) (w : W) : Attempt W (Course P) :=
  andThen (askEach description responders w) fun answers w =>
    andThen (conclude initiator (responders.getD · .silent) description
      (bidsOf (List.range answers.length) answers) w) fun award w =>
        (.ok ⟨description, answers, award⟩, w)

theorem length_of_askEach {description : P} {responders : List (Responder W P)} {w w' : W}
    {answers : List (Option P)} (h : askEach description responders w = (.ok answers, w')) :
    answers.length = responders.length := by
  induction responders generalizing w w' answers with
  | nil =>
    cases h
    rfl
  | cons responder responders ih =>
    obtain ⟨answer, w₁, _, h⟩ := andThen_eq_ok_iff.mp h
    obtain ⟨others, w₂, ho, h⟩ := andThen_eq_ok_iff.mp h
    cases h
    rw [List.length_cons, List.length_cons, ih ho]

/-- The numbers of the bidders are some of the numbers that were asked. -/
theorem bidders_sublist (numbers : List Nat) (answers : List (Option P)) :
    ((bidsOf numbers answers).map Prod.fst).Sublist numbers := by
  induction numbers generalizing answers with
  | nil => exact List.Sublist.refl []
  | cons number numbers ih =>
    cases answers with
    | nil => exact List.nil_sublist _
    | cons answer answers =>
      cases answer with
      | none => exact (ih answers).cons number
      | some bid => exact (ih answers).cons_cons number

theorem bidders_nodup (n : Nat) (answers : List (Option P)) :
    ((bidsOf (List.range n) answers).map Prod.fst).Nodup :=
  (bidders_sublist _ answers).nodup List.nodup_range

end DemandResponse.Negotiation
