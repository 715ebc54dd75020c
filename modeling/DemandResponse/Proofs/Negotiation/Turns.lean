import DemandResponse.Negotiation.Round
import DemandResponse.Proofs.Attempt

/-!
# Message by message

The loop of a round takes the oldest message off the queue and has it handled, until the queue is
empty or a party faults. What the handling of a message keeps is kept by the whole round, also by
one that is cut off; the responders are the first example.
-/

namespace DemandResponse.Negotiation.Net

variable {W P : Type}

section Frame

variable {initiator : Initiator W P} {net : Net W P} {w : W}

theorem responders_giveUp : (giveUp initiator net w).2.1.responders = net.responders := by
  unfold giveUp
  split <;> rfl

theorem responders_awardTo {winner : Fin net.proposals.length} {best : P} :
    (awardTo initiator net winner best w).2.1.responders = net.responders := by
  unfold awardTo
  dsimp only
  split <;> rfl

theorem responders_finish {completed : Bool} :
    (net.finish completed).responders = net.responders := by
  unfold finish
  split <;> rfl

variable [Proposal P]

theorem responders_evaluate : (evaluate initiator net w).2.1.responders = net.responders := by
  unfold evaluate
  dsimp only
  split
  · rfl
  · split
    · exact responders_giveUp
    · split
      · rfl
      · exact responders_giveUp
      · split
        · exact responders_giveUp
        · exact responders_awardTo

theorem responders_countAnswer :
    (countAnswer initiator net w).2.1.responders = net.responders := by
  unfold countAnswer
  dsimp only
  split
  · exact responders_evaluate
  · rfl

/-- Nobody joins or leaves while a message is handled. -/
theorem responders_handle (message : Message P) :
    (handle initiator message net w).2.1.responders = net.responders := by
  cases message with
  | callForProposal number description =>
    rw [handle]
    split <;> rfl
  | refuse number => exact responders_countAnswer
  | propose number proposal => exact responders_countAnswer
  | rejectProposal number proposal => rfl
  | acceptProposal number proposal =>
    rw [handle]
    split <;> rfl
  | informDone number proposal =>
    rw [handle]
    split
    · rfl
    · exact responders_finish
  | failure number => exact responders_finish

end Frame

variable [Proposal P] {initiator : Initiator W P} {net : Net W P} {w : W}

theorem drain_nil (hq : net.queue = []) : drain initiator net w = (.ok (), net, w) := by
  rw [drain]
  split
  · rfl
  · next h => rw [hq] at h; cases h

theorem drain_cons {message : Message P} {rest : List (Message P)}
    (hq : net.queue = message :: rest) :
    drain initiator net w =
      andThen (handle initiator message (net.taking message rest) w)
        fun _ s => drain initiator s.1 s.2 := by
  rw [drain]
  split
  · next h => rw [hq] at h; cases h
  · next message' rest' h =>
    obtain ⟨rfl, rfl⟩ := List.cons.inj (hq.symm.trans h)
    split
    · next hs => exact congrArg (andThen · fun _ s => drain initiator s.1 s.2) hs.symm
    · next hs => exact congrArg (andThen · fun _ s => drain initiator s.1 s.2) hs.symm

/-- What every message keeps when it is handled, the loop keeps. -/
theorem drain_keeps {I : Net W P × W → Prop}
    (hturn : ∀ net w message rest, I (net, w) → net.queue = message :: rest →
      I (handle initiator message (net.taking message rest) w).2)
    (h : I (net, w)) : I (drain initiator net w).2 := by
  fun_induction drain initiator net w with
  | case1 net w hq => exact h
  | case2 net w message rest hq fault net' w' hs =>
    have := hturn net w message rest h hq
    rwa [hs] at this
  | case3 net w message rest hq net' w' hs hlt ih =>
    have := hturn net w message rest h hq
    rw [hs] at this
    exact ih this

/-- The states that a round with work passes through: all have been called; with nobody to call, the
choice has been made; a message has been handled. -/
inductive Visited (initiator : Initiator W P) (net : Net W P) (w : W) : Net W P → W → Prop where
  | called {description : P} {w₁ : W}
    (hwork : initiator.describe w = (.ok (some description), w₁)) :
    Visited initiator net w (net.reset.announce description) w₁
  | alone {description : P} {w₁ w₂ : W} {net₂ : Net W P}
    (hwork : initiator.describe w = (.ok (some description), w₁)) (hnone : net.responders = [])
    (hs : evaluate initiator (net.reset.announce description) w₁ = (.ok (), net₂, w₂)) :
    Visited initiator net w net₂ w₂
  | turn {net₁ net₂ : Net W P} {w₁ w₂ : W} {message : Message P} {rest : List (Message P)}
    (h : Visited initiator net w net₁ w₁) (hq : net₁.queue = message :: rest)
    (hs : handle initiator message (net₁.taking message rest) w₁ = (.ok (), net₂, w₂)) :
    Visited initiator net w net₂ w₂

/-- A loop that ends has passed through its last state, where the queue is empty. -/
theorem Visited.drain {net' net'' : Net W P} {w' w'' : W} (h : Visited initiator net w net' w')
    (hs : drain initiator net' w' = (.ok (), net'', w'')) :
    Visited initiator net w net'' w'' ∧ net''.queue = [] := by
  fun_induction Net.drain initiator net' w' with
  | case1 net' w' hq =>
    cases hs
    exact ⟨h, hq⟩
  | case2 => cases hs
  | case3 net' w' message rest hq net₁ w₁ hturn hlt ih => exact ih (h.turn hq hturn) hs

/-- A round that ends had no work, or closes the last state that it has passed through. -/
theorem visited_of_solicit {result : Result P} {net' : Net W P} {w' : W}
    (h : solicit initiator net w = (.ok result, net', w')) :
    initiator.describe w = (.ok none, w') ∧ result = .noWork ∧ net' = net.reset ∨
      ∃ last, Visited initiator net w last w' ∧ last.queue = [] ∧ last.close = (result, net') := by
  unfold solicit at h
  dsimp only at h
  split at h
  · cases h
  · next hwork =>
    cases h
    exact .inl ⟨hwork, rfl, rfl⟩
  · next description w₁ hwork =>
    split at h
    · cases h
    · next last w₂ hrun =>
      cases h
      refine .inr ⟨last, ?_⟩
      suffices Visited initiator net w last w' ∧ last.queue = [] from ⟨this.1, this.2, rfl⟩
      unfold run at hrun
      split at hrun
      · next hempty =>
        split at hrun
        · cases hrun
        · next hchoice =>
          have hnone : net.responders = [] := List.isEmpty_iff.mp hempty
          exact (Visited.alone hwork hnone hchoice).drain hrun
      · exact (Visited.called hwork).drain hrun

theorem responders_drain : (drain initiator net w).2.1.responders = net.responders :=
  drain_keeps (I := fun s => s.1.responders = net.responders)
    (fun _ _ message _ h _ => (responders_handle message).trans h) rfl

theorem responders_run : (run initiator net w).2.1.responders = net.responders := by
  have he : (evaluate initiator net w).2.1.responders = net.responders := responders_evaluate
  unfold run
  split
  · split
    · next h => rwa [h] at he
    · next h => rw [h] at he; exact responders_drain.trans he
  · exact responders_drain

/-- A round leaves the responders as they were, wherever it ends. -/
theorem responders_solicit : (solicit initiator net w).2.1.responders = net.responders := by
  unfold solicit
  dsimp only
  split
  · rfl
  · rfl
  · next description w₁ _ =>
    have hr : (run initiator (net.reset.announce description) w₁).2.1.responders =
      net.responders := responders_run
    split
    · next h => rwa [h] at hr
    · next h => rwa [h] at hr

end DemandResponse.Negotiation.Net
