import DemandResponse.Proofs.Negotiation.Observation
import Mathlib.Data.List.Induction

/-!
# A round does not remember

A net is used again and again. Responders join it, and rounds are held, any of which may be cut
off where a party faults, with messages in the queue and answers half counted. The next round is
the round of a net that has been built afresh from the same responders: the same calls are made,
it passes through the same states, the answer is the same, and the same is left on record. Only the
phase of an earlier round can outlast a round, and only one for which there was no work.
-/

namespace DemandResponse.Negotiation.Net

variable {W P : Type}

/-- What is done with a net. A round finds the parties in whatever state they are by then. -/
inductive Operation (W P : Type) where
  | register (responder : Responder W P)
  | round (initiator : Initiator W P) (w : W)

/-- The responders that have joined, in their order. -/
def joined (past : List (Operation W P)) : List (Responder W P) :=
  past.filterMap fun
    | .register responder => some responder
    | .round _ _ => none

/-- A net that has seen its responders join and no round. -/
def built (responders : List (Responder W P)) : Net W P :=
  responders.foldl (fun net responder => (net.register responder).2) {}

theorem built_eq (responders : List (Responder W P)) : built responders = { responders } := by
  induction responders using List.reverseRecOn with
  | nil => rfl
  | append_singleton responders responder ih =>
    rw [built, List.foldl_append]
    change (Net.register (built responders) responder).2 = _
    rw [ih]
    rfl

variable [Proposal P]

/-- A round that is cut off leaves the net as it is at that moment. -/
def step (net : Net W P) : Operation W P → Net W P
  | .register responder => (net.register responder).2
  | .round initiator w => (solicit initiator net w).2.1

/-- A net after some operations, the earliest first. -/
def after (past : List (Operation W P)) : Net W P := past.foldl step {}

/-- No round adds or removes a responder. -/
theorem responders_after (past : List (Operation W P)) : (after past).responders = joined past := by
  induction past using List.reverseRecOn with
  | nil => rfl
  | append_singleton past op ih =>
    rw [after, List.foldl_append, joined, List.filterMap_append]
    change (step (after past) op).responders = joined past ++ _
    cases op with
    | register responder => exact congrArg (· ++ [responder]) ih
    | round initiator w => exact (responders_solicit.trans ih).trans (List.append_nil _).symm

/-- Two rounds that answer the same, in the same world, and leave the same on record up to the
phase. -/
structure Alike (a b : Attempt (Net W P × W) (Result P)) : Prop where
  answer_eq : a.1 = b.1
  world_eq : a.2.2 = b.2.2
  record_eq : a.2.1 = { b.2.1 with phase := a.2.1.phase }

/-- The calls of a round, in their order and with what was given to the parties. -/
def calls (initiator : Initiator W P) (net : Net W P) (w : W) : List (Approach P) :=
  (solicit initiator.observed net.observed (w, [])).2.2.2

variable {initiator : Initiator W P} {net net' : Net W P} {w w' : W}

omit [Proposal P] in
theorem announce_congr (h : net.responders = net'.responders) (description : P) :
    net.reset.announce description = net'.reset.announce description := by
  simp only [announce, reset, enter, h]

/-- Nothing but the responders of a net takes part in a round with work. -/
theorem solicit_eq_of_work (h : net.responders = net'.responders) {description : P}
    (hwork : initiator.describe w = (.ok (some description), w')) :
    solicit initiator net w = solicit initiator net' w := by
  unfold solicit
  dsimp only
  rw [hwork]
  dsimp only
  rw [announce_congr h]

/-- What is queued, collected, counted or awarded at some moment of a round does not depend on what
the net held before. -/
theorem Visited.congr (h : net.responders = net'.responders) {s : Net W P} {w₁ : W}
    (hs : Visited initiator net w s w₁) : Visited initiator net' w s w₁ := by
  induction hs with
  | called hwork => exact announce_congr h _ ▸ .called hwork
  | alone hwork hnone hs => exact .alone hwork (h ▸ hnone) (announce_congr h _ ▸ hs)
  | turn _ hq hs ih => exact .turn ih hq hs

theorem solicit_alike (h : net.responders = net'.responders) :
    Alike (solicit initiator net w) (solicit initiator net' w) := by
  have hreset : net.reset = { net'.reset with phase := net.phase } := by rw [reset, reset, h]
  rcases hdescribe : initiator.describe w with ⟨fault | work, w₁⟩
  · unfold solicit
    rw [hdescribe]
    exact ⟨rfl, rfl, hreset⟩
  · cases work with
    | none =>
      -- nothing but the reset is left, and that keeps the phase
      unfold solicit
      rw [hdescribe]
      exact ⟨rfl, rfl, hreset⟩
    | some description =>
      rw [solicit_eq_of_work h hdescribe]
      exact ⟨rfl, rfl, rfl⟩

/-- The list of an observer agrees too, since to the round it is part of the world. -/
theorem calls_eq (h : net.responders = net'.responders) :
    calls initiator net w = calls initiator net' w := by
  have hobserved : net.observed.responders = net'.observed.responders := by
    rw [observed, observed, watched, watched, h]
  exact congrArg Prod.snd (solicit_alike hobserved).world_eq

theorem solicit_observed (initiator : Initiator W P) (net : Net W P) (w : W) :
    solicit initiator.observed net.observed (w, []) =
      ((solicit initiator net w).1, (solicit initiator net w).2.1.observed,
        (solicit initiator net w).2.2, calls initiator net w) := by
  obtain ⟨more, hmore⟩ : Reflects .approaches [] (solicit initiator net w)
      (solicit initiator.observed net.observed (w, [])) := reflects_solicit net
  rw [calls, hmore]
  rfl

/-- Whatever has been done with a net, its next round makes the calls that a net built afresh from
the same responders makes, passes through the same states, answers the same, and leaves the same
behind. The calls are those of observed parties, whose rounds are the rounds themselves. -/
theorem solicit_afresh (past : List (Operation W P)) (initiator : Initiator W P) (w : W) :
    calls initiator (after past) w = calls initiator (built (joined past)) w ∧
      (∀ s w₁, Visited initiator (after past) w s w₁ ↔
        Visited initiator (built (joined past)) w s w₁) ∧
      Alike (solicit initiator (after past) w) (solicit initiator (built (joined past)) w) ∧
      (∀ description w', initiator.describe w = (.ok (some description), w') →
        solicit initiator (after past) w = solicit initiator (built (joined past)) w) ∧
      ∀ net : Net W P, solicit initiator.observed net.observed (w, []) =
        ((solicit initiator net w).1, (solicit initiator net w).2.1.observed,
          (solicit initiator net w).2.2, calls initiator net w) := by
  have h : (after past).responders = (built (joined past)).responders := by
    rw [responders_after, built_eq]
  exact ⟨calls_eq h, fun _ _ => ⟨Visited.congr h, Visited.congr h.symm⟩, solicit_alike h,
    fun _ _ => solicit_eq_of_work h, fun net => solicit_observed initiator net w⟩

end DemandResponse.Negotiation.Net
