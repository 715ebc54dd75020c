import DemandResponse.Proofs.Negotiation.Afresh
import DemandResponse.Proofs.Negotiation.Transcript

/-!
# What an interrupted round leaves behind

A round with work that ends puts the net to rest. One that is cut off leaves it in the phase of
that moment, and nothing but the next round with work takes it out of there: forgetting a round does
not touch the phase, and a round for which there is no work enters none. Such a round ends on a net
that still reports the phase of the round that was cut off.
-/

namespace DemandResponse.Negotiation

variable {W P : Type}

/-- The phases in which parties are called. -/
def Phase.isUnderway : Phase → Bool
  | .idle => false
  | .soliciting => false
  | _ => true

namespace Net

section Underway

variable {initiator : Initiator W P} {net : Net W P} {w : W}

theorem underway_giveUp : (giveUp initiator net w).2.1.phase.isUnderway := by
  unfold giveUp
  split <;> rfl

theorem underway_awardTo {winner : Fin net.proposals.length} {best : P}
    (h : net.phase.isUnderway) : (awardTo initiator net winner best w).2.1.phase.isUnderway := by
  unfold awardTo
  dsimp only
  split
  · exact h
  · rfl

theorem phase_finish {completed : Bool} : (net.finish completed).phase = net.phase := by
  unfold finish
  split <;> rfl

variable [Proposal P]

theorem underway_evaluate : (evaluate initiator net w).2.1.phase.isUnderway := by
  unfold evaluate
  dsimp only
  split
  · rfl
  · split
    · exact underway_giveUp
    · split
      · rfl
      · exact underway_giveUp
      · split
        · exact underway_giveUp
        · exact underway_awardTo rfl

theorem underway_countAnswer (h : net.phase.isUnderway) :
    (countAnswer initiator net w).2.1.phase.isUnderway := by
  unfold countAnswer
  dsimp only
  split
  · exact underway_evaluate
  · exact h

/-- No message brings the net to rest, or back to the announcement. -/
theorem underway_handle (message : Message P) (h : net.phase.isUnderway) :
    (handle initiator message net w).2.1.phase.isUnderway := by
  cases message with
  | callForProposal number description =>
    rw [handle]
    split <;> exact h
  | refuse number => exact underway_countAnswer h
  | propose number proposal => exact underway_countAnswer h
  | rejectProposal number proposal => exact h
  | acceptProposal number proposal =>
    rw [handle]
    split <;> exact h
  | informDone number proposal =>
    rw [handle]
    split
    · exact h
    · exact phase_finish.symm ▸ h
  | failure number => exact phase_finish.symm ▸ h

theorem underway_drain (h : net.phase.isUnderway) :
    (drain initiator net w).2.1.phase.isUnderway :=
  drain_keeps (I := fun s => s.1.phase.isUnderway) (fun _ _ message _ h _ => underway_handle message h)
    h

theorem underway_run (h : net.phase.isUnderway) :
    (run initiator net w).2.1.phase.isUnderway := by
  have he : (evaluate initiator net w).2.1.phase.isUnderway := underway_evaluate
  unfold run
  split
  · split
    · next h => rwa [h] at he
    · next h => rw [h] at he; exact underway_drain he
  · exact underway_drain h

end Underway

/-- A round for which the initiator has work. -/
def Operation.HasWork : Operation W P → Prop
  | .register _ => False
  | .round initiator w => ∃ description w', initiator.describe w = (.ok (some description), w')

section Rounds

variable [Proposal P] {initiator : Initiator W P} {net net' : Net W P} {w w' : W}

/-- A round with work that a party cuts off. -/
def Operation.Breaks (net : Net W P) : Operation W P → Prop
  | .register _ => False
  | .round initiator w => (Operation.round initiator w).HasWork ∧
      ∃ fault s, solicit initiator net w = (.error fault, s)

/-- The last round with work has been cut off. -/
def CutOff (past : List (Operation W P)) : Prop :=
  ∃ before op later, past = before ++ op :: later ∧ op.Breaks (after before) ∧
    ∀ next ∈ later, ¬ next.HasWork

theorem after_concat (past : List (Operation W P)) (op : Operation W P) :
    after (past ++ [op]) = step (after past) op := by
  rw [after, List.foldl_append]
  rfl

theorem cutOff_concat_iff {past : List (Operation W P)} {op : Operation W P} :
    CutOff (past ++ [op]) ↔ op.Breaks (after past) ∨ CutOff past ∧ ¬ op.HasWork := by
  constructor
  · rintro ⟨before, broken, later, hpast, hbroken, hlater⟩
    rcases List.eq_nil_or_concat later with rfl | ⟨later, last, rfl⟩
    · obtain ⟨rfl, hop⟩ := List.append_inj' hpast rfl
      obtain rfl := List.singleton_inj.mp hop
      exact .inl hbroken
    · have hpast : past ++ [op] = (before ++ broken :: later) ++ [last] := by simpa using hpast
      obtain ⟨rfl, hop⟩ := List.append_inj' hpast rfl
      obtain rfl := List.singleton_inj.mp hop
      exact .inr ⟨⟨before, broken, later, rfl, hbroken, fun next hnext =>
        hlater next (by simp [hnext])⟩, hlater op (by simp)⟩
  · rintro (hop | ⟨⟨before, broken, later, rfl, hbroken, hlater⟩, hop⟩)
    · exact ⟨past, op, [], rfl, hop, by simp⟩
    · refine ⟨before, broken, later ++ [op], by simp, hbroken, fun next hnext => ?_⟩
      rcases List.mem_append.mp hnext with hnext | hnext
      · exact hlater next hnext
      · exact List.mem_singleton.mp hnext ▸ hop

/-- Without work a round is over after the question for it, and nothing but the reset is left. -/
theorem phase_solicit_of_not_hasWork (h : ¬ (Operation.round initiator w).HasWork) :
    (solicit initiator net w).2.1.phase = net.phase := by
  unfold solicit
  dsimp only
  split
  · rfl
  · rfl
  · next description w₁ hwork => exact absurd ⟨description, w₁, hwork⟩ h

/-- There is work for a round that passes through any state. -/
theorem Visited.hasWork (h : Visited initiator net w net' w') :
    (Operation.round initiator w).HasWork := by
  induction h with
  | called hwork => exact ⟨_, _, hwork⟩
  | alone hwork => exact ⟨_, _, hwork⟩
  | turn _ _ _ ih => exact ih

theorem solicit_of_run_error {description : P} {w₁ : W} {fault : Fault}
    (hwork : initiator.describe w = (.ok (some description), w₁))
    (hrun : run initiator (net.reset.announce description) w₁ = (.error fault, net', w')) :
    solicit initiator net w = (.error fault, net', w') := by
  unfold solicit
  simp only [hwork, hrun]

/-- A round that breaks off has not come to rest. -/
theorem underway_of_breaks (h : (Operation.round initiator w).Breaks net) :
    (solicit initiator net w).2.1.phase.isUnderway := by
  obtain ⟨⟨description, w₁, hwork⟩, fault, s, hs⟩ := h
  have hunderway : (run initiator (net.reset.announce description) w₁).2.1.phase.isUnderway :=
    underway_run rfl
  rcases hrun : run initiator (net.reset.announce description) w₁ with ⟨broken | _, net₁, w₂⟩
  · rw [solicit_of_run_error hwork hrun]
    rwa [hrun] at hunderway
  · unfold solicit at hs
    simp only [hwork, hrun] at hs
    cases hs

/-- A round that ends had no work and has left the phase alone, or had work and is at rest. -/
theorem phase_solicit_of_ok {result : Result P}
    (h : solicit initiator net w = (.ok result, net', w')) :
    (result = .noWork ∧ ¬ (Operation.round initiator w).HasWork ∧ net'.phase = net.phase) ∨
      (result ≠ .noWork ∧ (Operation.round initiator w).HasWork ∧ net'.phase = .idle) := by
  rcases visited_of_solicit h with ⟨hdescribe, rfl, rfl⟩ | ⟨last, hlast, _, hclose⟩
  · refine .inl ⟨rfl, ?_, rfl⟩
    rintro ⟨description, w₁, hwork⟩
    cases hdescribe.symm.trans hwork
  · obtain ⟨_, rfl⟩ := Prod.mk.inj hclose
    refine .inr ⟨?_, hlast.hasWork, rfl⟩
    rcases solicit_ends initiator net w with ⟨_, _, _, hs, _⟩ | ⟨_, hs⟩ | ⟨c, _, _, hs⟩
    · cases hs.symm.trans h
    · -- a net that has been closed has entered a phase, and one that was only reset has not
      have hnet : last.close.2 = net.reset := congrArg (fun s => s.2.1) (h.symm.trans hs)
      have hphases : last.transitions ++ [.idle] = [] := congrArg transitions hnet
      exact absurd hphases (by simp)
    · obtain rfl : result = c.result := Except.ok.inj (congrArg Prod.fst (h.symm.trans hs))
      unfold Course.result
      split <;> nofun

/-- A net is at rest, or a round that has been cut off has left it underway. -/
theorem phase_after (past : List (Operation W P)) :
    ((after past).phase = .idle ∧ ¬ CutOff past) ∨
      ((after past).phase.isUnderway ∧ CutOff past) := by
  induction past using List.reverseRecOn with
  | nil => exact .inl ⟨rfl, fun ⟨before, op, later, hpast, _⟩ => by simp at hpast⟩
  | append_singleton past op ih =>
    have hquiet : ¬ op.HasWork → ¬ op.Breaks (after past) →
        (step (after past) op).phase = (after past).phase →
        (((after (past ++ [op])).phase = .idle ∧ ¬ CutOff (past ++ [op])) ∨
          ((after (past ++ [op])).phase.isUnderway ∧ CutOff (past ++ [op]))) := by
      intro hwork hbreaks hphase
      rw [after_concat, hphase, cutOff_concat_iff, or_iff_right hbreaks, and_iff_left hwork]
      exact ih
    cases op with
    | register responder => exact hquiet id id rfl
    | round initiator w =>
      by_cases hwork : (Operation.round initiator w).HasWork
      · rw [after_concat, cutOff_concat_iff]
        by_cases hbreaks : (Operation.round initiator w).Breaks (after past)
        · exact .inr ⟨underway_of_breaks hbreaks, .inl hbreaks⟩
        · refine .inl ⟨?_, not_or.mpr ⟨hbreaks, fun h => h.2 hwork⟩⟩
          rcases hs : solicit initiator (after past) w with ⟨fault | result, net', w'⟩
          · exact absurd ⟨hwork, fault, _, hs⟩ hbreaks
          · rcases phase_solicit_of_ok hs with ⟨_, hnone, _⟩ | ⟨_, _, hidle⟩
            · exact absurd hwork hnone
            · change (solicit initiator (after past) w).2.1.phase = .idle
              rw [hs]
              exact hidle
      · exact hquiet hwork (fun h => hwork h.1) (phase_solicit_of_not_hasWork hwork)

/-- Whatever has been done with a net, a round that ends leaves it idle unless there was no work for
it and the last round with work had been cut off. In that case the net still reports the phase in
which that round broke off. -/
theorem solicit_idle_iff (past : List (Operation W P)) {initiator : Initiator W P} {w w' : W}
    {result : Result P} {net' : Net W P}
    (h : solicit initiator (after past) w = (.ok result, net', w')) :
    (net'.phase = .idle ↔ ¬ (result = .noWork ∧ CutOff past)) ∧
      (net'.phase ≠ .idle → net'.phase = (after past).phase ∧ net'.phase.isUnderway) := by
  rcases phase_solicit_of_ok h with ⟨hresult, _, hphase⟩ | ⟨hresult, _, hidle⟩
  · rw [hphase]
    rcases phase_after past with ⟨hidle, hcut⟩ | ⟨hunderway, hcut⟩
    · exact ⟨iff_of_true hidle fun h => hcut h.2, fun hne => absurd hidle hne⟩
    · have hne : (after past).phase ≠ .idle := by
        intro hidle
        rw [hidle] at hunderway
        cases hunderway
      exact ⟨iff_of_false hne fun h => h ⟨hresult, hcut⟩, fun _ => ⟨rfl, hunderway⟩⟩
  · exact ⟨iff_of_true hidle fun h => hresult h.1, fun hne => absurd hidle hne⟩

end Rounds

/-- An initiator that has nothing to put out. -/
def workless : Initiator Unit Amount := { easyInitiator with describe := fun w => (.ok none, w) }

/-- A responder that cannot build its bid, since its window closes before it opens. -/
def confused : Responder Unit Amount where
  call _ w := (.error (.invertedWindow 5 3), w)
  accept award w := (.ok (some award), w)

/-- A round that is cut off at its first call. -/
def interrupted : List (Operation Unit Amount) := [.register confused, .round easyInitiator ()]

theorem phase_after_interrupted : (after interrupted).phase = .collecting := by
  have hrun : run easyInitiator ((after [.register confused]).reset.announce ⟨.half⟩) () =
      (.error (.invertedWindow 5 3), ((after [.register confused]).reset.announce ⟨.half⟩).taking
        (.callForProposal 0 ⟨.half⟩) [], ()) := by
    change drain _ _ _ = _
    rw [drain_cons rfl]
    rfl
  change (solicit easyInitiator (after [.register confused]) ()).2.1.phase = _
  rw [solicit_of_run_error rfl hrun]
  rfl

/-- There is no work for the second round. -/
theorem solicit_idle_iff_interrupted :
    ∃ net', solicit workless (after interrupted) () = (.ok .noWork, net', ()) ∧
      (net'.phase = .idle ↔ ¬ ((.noWork : Result Amount) = .noWork ∧ CutOff interrupted)) ∧
      (net'.phase ≠ .idle →
        net'.phase = (after interrupted).phase ∧ net'.phase.isUnderway) := by
  have hs : solicit workless (after interrupted) () = (.ok .noWork, (after interrupted).reset, ()) := rfl
  exact ⟨_, hs, solicit_idle_iff interrupted hs⟩

/-- The round ends, and the net reports that it is collecting. -/
theorem solicit_noWork_collecting :
    ∃ net', solicit workless (after interrupted) () = (.ok .noWork, net', ()) ∧
      net'.phase = .collecting :=
  ⟨_, rfl, phase_after_interrupted⟩

end Net

end DemandResponse.Negotiation
