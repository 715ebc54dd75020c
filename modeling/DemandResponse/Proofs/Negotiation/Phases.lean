import DemandResponse.Proofs.Negotiation.Turns
import DemandResponse.Proofs.Negotiation.Transcript

/-!
# The phases of a round

A round with work collects, evaluates once, and then confirms an award or ends without a solution.
The gate between collecting and evaluating is a comparison of two counters. Up to the gate every
message in the queue stands for an answer that is missing; behind it no such message is left, and
so it is passed when the last answer comes in, and never again.
-/

namespace DemandResponse.Negotiation

variable {W P : Type}

namespace Message

/-- An answer to a call. -/
def isAnswer : Message P → Bool
  | .refuse _ => true
  | .propose _ _ => true
  | _ => false

/-- A call for a bid, or an answer to one. -/
def isOpen : Message P → Bool
  | .callForProposal _ _ => true
  | message => message.isAnswer

end Message

namespace Net

/-- How often the initiator has been asked to evaluate in this round. -/
def evaluations (net : Net W P) : Nat := net.transitions.count .evaluating

/-- Before the evaluation: each queued message stands for an answer that is missing. -/
structure Collecting (n : Nat) (net : Net W P) : Prop where
  size_eq : net.responders.length = n
  evaluations_eq : net.evaluations = 0
  isOpen : ∀ message ∈ net.queue, message.isOpen
  answered_add : net.answered + net.queue.length = n

/-- After the evaluation: all answers are in, and no call and no answer is queued. -/
structure Evaluated (n : Nat) (net : Net W P) : Prop where
  size_eq : net.responders.length = n
  evaluations_eq : net.evaluations = 1
  not_isOpen : ∀ message ∈ net.queue, ¬ message.isOpen
  answered_eq : net.answered = n

/-- What evaluating leaves alone, and adds to the queue. -/
structure Settles (net net' : Net W P) : Prop where
  responders_eq : net'.responders = net.responders
  answered_eq : net'.answered = net.answered
  evaluations_eq : net'.evaluations = net.evaluations
  queue_eq : ∃ more, net'.queue = net.queue ++ more ∧ ∀ message ∈ more, ¬ message.isOpen

theorem evaluations_enter (net : Net W P) (phase : Phase) :
    (net.enter phase).evaluations = net.evaluations + if phase = .evaluating then 1 else 0 := by
  cases phase <;> simp [evaluations, enter]

section Steps

variable {initiator : Initiator W P} {net : Net W P} {w : W}

theorem Settles.refl (net : Net W P) : Settles net net :=
  ⟨rfl, rfl, rfl, [], (List.append_nil _).symm, by simp⟩

theorem settles_giveUp : Settles net (giveUp initiator net w).2.1 := by
  unfold giveUp
  split <;> exact ⟨rfl, rfl, evaluations_enter _ .noSolution, [], (List.append_nil _).symm, by simp⟩

theorem not_isOpen_of_mem_rejections {winner : Nat} {bids : List (Nat × P)} {message : Message P}
    (h : message ∈ rejections winner bids) : ¬ message.isOpen := by
  obtain ⟨bid, _, rfl⟩ := List.mem_map.mp h
  exact Bool.false_ne_true

theorem settles_awardTo {winner : Fin net.proposals.length} {best : P} :
    Settles net (awardTo initiator net winner best w).2.1 := by
  unfold awardTo
  dsimp only
  split
  · exact ⟨rfl, rfl, rfl, _, rfl, fun _ => not_isOpen_of_mem_rejections⟩
  · refine ⟨rfl, rfl, evaluations_enter _ .confirming, _, List.append_assoc _ _ _, ?_⟩
    intro message hm
    rcases List.mem_append.mp hm with hm | hm
    · exact not_isOpen_of_mem_rejections hm
    · obtain rfl := List.mem_singleton.mp hm
      exact Bool.false_ne_true

theorem finish_frame {completed : Bool} :
    (net.finish completed).queue = net.queue ∧ (net.finish completed).answered = net.answered ∧
      (net.finish completed).evaluations = net.evaluations := by
  unfold finish
  split <;> exact ⟨rfl, rfl, rfl⟩

variable [Proposal P]

theorem settles_evaluate : Settles (net.enter .evaluating) (evaluate initiator net w).2.1 := by
  unfold evaluate
  dsimp only
  split
  · exact .refl _
  · split
    · exact settles_giveUp
    · split
      · exact .refl _
      · exact settles_giveUp
      · split
        · exact settles_giveUp
        · exact settles_awardTo

theorem evaluations_evaluate :
    (evaluate initiator net w).2.1.evaluations = net.evaluations + 1 :=
  settles_evaluate.evaluations_eq.trans (evaluations_enter net .evaluating)

end Steps

section Gate

variable [Proposal P] {initiator : Initiator W P} {net net' : Net W P} {w w' : W} {n : Nat}
  {message : Message P} {rest : List (Message P)}

/-- The gate. -/
theorem evaluated_of_evaluate (hsize : net.responders.length = n) (he : net.evaluations = 0)
    (hn : net.answered = n) (hq : net.queue = []) :
    Evaluated n (evaluate initiator net w).2.1 where
  size_eq := (congrArg List.length responders_evaluate).trans hsize
  evaluations_eq := by rw [evaluations_evaluate, he]
  not_isOpen := by
    obtain ⟨more, hmore, hopen⟩ := (@settles_evaluate _ _ initiator net w _).queue_eq
    rwa [hmore, show (net.enter .evaluating).queue = [] from hq, List.nil_append]
  answered_eq := settles_evaluate.answered_eq.trans hn

theorem gate_countAnswer (hsize : net.responders.length = n) (he : net.evaluations = 0)
    (hopen : ∀ message ∈ net.queue, message.isOpen)
    (hn : net.answered + 1 + net.queue.length = n) :
    Collecting n (countAnswer initiator net w).2.1 ∨
      Evaluated n (countAnswer initiator net w).2.1 := by
  unfold countAnswer
  dsimp only
  split
  · next hlast =>
    -- the sum leaves no room for a queued message
    have hq : net.queue = [] := List.eq_nil_of_length_eq_zero (by omega)
    exact .inr (evaluated_of_evaluate hsize he (hlast.trans hsize) hq)
  · exact .inl ⟨hsize, he, hopen, hn⟩

/-- A call is replaced by an answer behind the queue; an answer is counted. -/
theorem Collecting.turn (h : Collecting n net) (hq : net.queue = message :: rest)
    (hs : handle initiator message (net.taking message rest) w = (.ok (), net', w')) :
    Collecting n net' ∨ Evaluated n net' := by
  have hopen : ∀ m ∈ rest, m.isOpen := fun m hm => h.isOpen m (hq ▸ List.mem_cons_of_mem _ hm)
  have hn : net.answered + 1 + rest.length = n := by
    have := h.answered_add
    rw [hq, List.length_cons] at this
    omega
  have hnet : net' = (handle initiator message (net.taking message rest) w).2.1 := by rw [hs]
  cases message with
  | callForProposal number description =>
    -- the call has left the queue and its answer joins it, so the sum stays
    have hsent : ∀ answer : Message P, answer.isOpen →
        Collecting n ((net.taking (.callForProposal number description) rest).send answer) := by
      intro answer hanswer
      refine ⟨h.size_eq, h.evaluations_eq, ?_, ?_⟩
      · intro m hm
        rcases List.mem_append.mp hm with hm | hm
        · exact hopen m hm
        · exact List.mem_singleton.mp hm ▸ hanswer
      · change net.answered + (rest ++ [answer]).length = n
        rw [List.length_append, List.length_singleton]
        omega
    rw [handle] at hs
    split at hs
    · cases hs
    · cases hs
      exact .inl (hsent _ rfl)
    · cases hs
      exact .inl (hsent _ rfl)
  | refuse number => exact hnet ▸ gate_countAnswer h.size_eq h.evaluations_eq hopen hn
  | propose number proposal => exact hnet ▸ gate_countAnswer h.size_eq h.evaluations_eq hopen hn
  | rejectProposal | acceptProposal | informDone | failure =>
    exact absurd (h.isOpen _ (hq ▸ List.mem_cons_self)) (by simp [Message.isOpen, Message.isAnswer])

/-- The rejections, the award and the report do not touch the count. -/
theorem Evaluated.turn (h : Evaluated n net) (hq : net.queue = message :: rest)
    (hs : handle initiator message (net.taking message rest) w = (.ok (), net', w')) :
    Evaluated n net' := by
  have hrest : ∀ m ∈ rest, ¬ m.isOpen := fun m hm =>
    h.not_isOpen m (hq ▸ List.mem_cons_of_mem _ hm)
  have htaking : Evaluated n (net.taking message rest) :=
    ⟨h.size_eq, h.evaluations_eq, hrest, h.answered_eq⟩
  have hfinish : ∀ completed, Evaluated n ((net.taking message rest).finish completed) := by
    intro completed
    obtain ⟨hqueue, hanswered, hevaluations⟩ :=
      @finish_frame _ _ (net.taking message rest) completed
    exact ⟨(congrArg List.length responders_finish).trans h.size_eq,
      hevaluations.trans h.evaluations_eq, by rwa [hqueue], hanswered.trans h.answered_eq⟩
  have hsent : ∀ report : Message P, ¬ report.isOpen →
      Evaluated n ((net.taking message rest).send report) := by
    intro report hreport
    refine ⟨h.size_eq, h.evaluations_eq, ?_, h.answered_eq⟩
    intro m hm
    rcases List.mem_append.mp hm with hm | hm
    · exact hrest m hm
    · exact List.mem_singleton.mp hm ▸ hreport
  cases message with
  | callForProposal | refuse | propose =>
    exact absurd rfl (h.not_isOpen _ (hq ▸ List.mem_cons_self))
  | rejectProposal number proposal =>
    obtain rfl : net.taking _ rest = net' := congrArg (fun r => r.2.1) hs
    exact htaking
  | acceptProposal number proposal =>
    rw [handle] at hs
    split at hs
    · cases hs
    · cases hs
      exact hsent _ Bool.false_ne_true
    · cases hs
      exact hsent _ Bool.false_ne_true
  | informDone number proposal =>
    rw [handle] at hs
    split at hs
    · cases hs
    · cases hs
      exact hfinish true
  | failure number =>
    rw [handle] at hs
    cases hs
    exact hfinish false

end Gate

end Net

end DemandResponse.Negotiation
