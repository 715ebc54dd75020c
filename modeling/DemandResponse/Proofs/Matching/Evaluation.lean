import DemandResponse.Proofs.Matching.Reach

/-!
# When an outcome can be evaluated

A matching step always answers an outcome. Its sum is checked where the selection was clamped, so
it faults if and only if the chosen offers go beyond the range together. Whether they can depends
on the target alone.
-/

namespace DemandResponse.Matching

open BestFit (Chooses)

variable {way : Direction}

namespace Outcome

/-- What the offers of an outcome change together, as an integer. -/
def exactSum (outcome : Outcome) : Int := Matching.exactSum (outcome.activations.map (·.offer))

@[simp] theorem exactSum_offers (outcome : Outcome) :
    Matching.exactSum (outcome.activations.map (·.offer)) = outcome.exactSum := rfl

/-- An outcome answers by its exact sum or, if this is out of range, with a fault. -/
structure Valued (outcome : Outcome) : Prop where
  exact : Power.InRange outcome.exactSum →
    (∃ sum, outcome.achieved = .ok sum ∧ sum.toInt = outcome.exactSum) ∧
    outcome.deviation = .ok (outcome.target.toInt - outcome.exactSum).natAbs ∧
    outcome.isExact = .ok (decide (outcome.target.toInt = outcome.exactSum))
  overflow : ¬ Power.InRange outcome.exactSum →
    outcome.achieved = .error .sumOverflow ∧ outcome.deviation = .error .sumOverflow ∧
    outcome.isExact = .error .sumOverflow

theorem valued_of_oneWay {outcome : Outcome}
    (h : OneWay way (outcome.activations.map (·.offer))) : outcome.Valued := by
  have hachieved : outcome.achieved =
      Fault.sumOverflow.ifNone (Power.ofInt? outcome.exactSum) := by
    have hstart : 0 ≤ way.sign * (0 : Power).toInt := by simp
    rw [achieved, addContributions_eq h hstart, Int64.toInt_zero, Int.zero_add]
    rfl
  constructor
  · intro hin
    obtain ⟨sum, hsum⟩ : ∃ sum, Power.ofInt? outcome.exactSum = some sum :=
      ⟨_, Power.ofInt?_eq_some_iff.mpr (Power.toInt_clamp hin)⟩
    have hexact := Power.ofInt?_eq_some_iff.mp hsum
    rw [hsum] at hachieved
    refine ⟨⟨sum, hachieved, hexact⟩, ?_, ?_⟩
    · rw [deviation, hachieved, ← hexact]
      rfl
    · rw [isExact, deviation, hachieved, ← hexact]
      simp only [Fault.ifNone, Except.map, Power.distance, Except.ok.injEq]
      rw [Bool.eq_iff_iff, beq_iff_eq, decide_eq_true_iff]
      omega
  · intro hout
    rw [Power.ofInt?_eq_none_iff.mpr hout] at hachieved
    rw [isExact, deviation, hachieved]
    exact ⟨rfl, rfl, rfl⟩

end Outcome

/-- Usable offers all go in the direction of the target. -/
theorem Matcher.oneWay_of_towards {m : Matcher} {target : Power} {book : Book}
    (h : Direction.towards target = some way) :
    ∀ c ∈ m.candidates target book, OneWay way c.offers := by
  intro c hc o ho
  obtain ⟨_, hsome, hpos⟩ := mem_offers_of_candidates hc ho
  exact ⟨Option.some.inj (hsome.symm.trans h), hpos⟩

theorem Matcher.oneWay_candidates (m : Matcher) (target : Power) (book : Book) :
    ∃ way, ∀ c ∈ m.candidates target book, OneWay way c.offers := by
  cases hway : Direction.towards target with
  | none =>
    refine ⟨.up, fun c hc o ho => ?_⟩
    have hsome := (mem_offers_of_candidates hc ho).2.1
    rw [hway] at hsome
    cases hsome
  | some way => exact ⟨way, oneWay_of_towards hway⟩

/-- A matching step answers an outcome, and what it activates are the offers of the selection. -/
theorem Matcher.meet_eq_chosen (m : Matcher) (tick : Tick) (target : Power) (book : Book) :
    ∃ outcome selection, m.meet tick target book = .ok outcome ∧ outcome.target = target ∧
      outcome.Valued ∧ m.strategy.select tick target (m.candidates target book) = .ok selection ∧
      Chooses selection (m.candidates target book) ∧
      outcome.activations.map (·.offer) = active selection := by
  obtain ⟨selection, hselect, hchooses, hmeet⟩ := m.meet_eq_activations tick target book
  obtain ⟨way, hway⟩ := m.oneWay_candidates target book
  have hoffers := offers_activations hchooses
  refine ⟨_, selection, hmeet, rfl, ?_, hselect, hchooses, hoffers⟩
  refine @Outcome.valued_of_oneWay way _ ?_
  rw [hoffers]
  exact oneWay_active hchooses hway

/-- Its exact sum is that of the selection. -/
theorem Matcher.meet_eq_valued (m : Matcher) (tick : Tick) (target : Power) (book : Book) :
    ∃ outcome selection, m.meet tick target book = .ok outcome ∧ outcome.target = target ∧
      outcome.Valued ∧ m.strategy.select tick target (m.candidates target book) = .ok selection ∧
      outcome.exactSum = exactSum (active selection) := by
  obtain ⟨outcome, selection, hmeet, htarget, hvalued, hselect, _, hoffers⟩ :=
    m.meet_eq_chosen tick target book
  exact ⟨outcome, selection, hmeet, htarget, hvalued, hselect, congrArg exactSum hoffers⟩

/-- Every matching step answers an outcome that evaluates to its exact sum or faults. For a
target that its strategy covers it evaluates, whatever the book holds. For every other target
there is a book of valid offers for which it faults. -/
theorem meet_valued (strategy : Strategy) (target : Power) :
    (∀ (sites : List SiteId) (tick : Tick) (book : Book), ∃ outcome,
      Matcher.meet ⟨strategy, sites⟩ tick target book = .ok outcome ∧
        outcome.target = target ∧ outcome.Valued ∧
        (strategy.Covers target → Power.InRange outcome.exactSum)) ∧
    (¬ strategy.Covers target → ∃ (registered : List SiteId) (calls : List Book.Filling),
      (∀ o ∈ (Book.filled calls).offers, 0 ≤ o.magnitude) ∧
      ∀ tick, ∃ outcome,
        (Matcher.ofSites strategy registered).meet tick target (Book.filled calls) =
          .ok outcome ∧
        outcome.achieved = .error .sumOverflow) := by
  constructor
  · intro sites tick book
    obtain ⟨outcome, selection, hmeet, htarget, hvalued, hselect, hsum⟩ :=
      Matcher.meet_eq_valued ⟨strategy, sites⟩ tick target book
    obtain ⟨way, hway⟩ := Matcher.oneWay_candidates ⟨strategy, sites⟩ target book
    refine ⟨outcome, hmeet, htarget, hvalued, fun hcovers => ?_⟩
    rw [hsum]
    exact Strategy.inRange_exactSum hway hcovers hselect
  · intro hcovers
    obtain ⟨first, second, hexceeds⟩ := Strategy.exists_exceeds hcovers
    obtain ⟨way, htowards, hone⟩ := hexceeds.oneWay
    refine ⟨[⟨"north"⟩, ⟨"south"⟩], pairCalls first second, ?_, fun tick => ?_⟩
    · rw [filled_pairCalls hexceeds.id_ne]
      intro o ho
      exact Int64.le_of_lt (hone o ho).2
    · obtain ⟨outcome, selection, hmeet, _, hvalued, hselect, hsum⟩ := Matcher.meet_eq_valued
        (Matcher.ofSites strategy [⟨"north"⟩, ⟨"south"⟩]) tick target
        (Book.filled (pairCalls first second))
      refine ⟨outcome, hmeet, (hvalued.overflow ?_).1⟩
      rw [candidates_pair strategy hexceeds.id_ne htowards hone] at hselect
      obtain rfl := Except.ok.inj ((hexceeds.select_eq tick).symm.trans hselect)
      rw [hsum]
      exact hexceeds.not_inRange

/-- Five and eight quintillion are 13 together, beyond the range. Clamped they fit the greatest
target exactly, and the pass finds the rest shrunk. Either strategy chooses both, and the sum of
the outcome faults. -/
theorem meet_crowded_overflow :
    ((Matcher.ofSites .exhaustive [⟨"north"⟩, ⟨"south"⟩]).meet 0 0x7fffffffffffffff
        (Book.filled (pairCalls ⟨1, 5000000000000000000, .up, 0, 0, 0⟩
          ⟨2, 8000000000000000000, .up, 0, 0, 0⟩))).bind Outcome.achieved =
      .error .sumOverflow ∧
    ((Matcher.ofSites .movingHorizon [⟨"north"⟩, ⟨"south"⟩]).meet 0 0x7fffffffffffffff
        (Book.filled (pairCalls ⟨1, 5000000000000000000, .up, 0, 0, 0⟩
          ⟨2, 8000000000000000000, .up, 0, 0, 0⟩))).bind Outcome.achieved =
      .error .sumOverflow := by
  decide +kernel

end DemandResponse.Matching
