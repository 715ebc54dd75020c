import DemandResponse.Proofs.Decimal.Difference
import DemandResponse.Proofs.Negotiation.Choice

/-!
# The bid nearest to what is wanted

The score of closeness is a difference of decimals, and so a distance that may have been rounded. It
never puts the farther of two bids first, but it may not tell them apart, and then the earlier one
is chosen. So the choice is the first of the nearest bids unless a bid that is nearer has its
distance rounded to the same, and it is always nearly as near as any bid.
-/

namespace DemandResponse.Negotiation

variable {P : Type} [Proposal P]

/-- How far a bid is from the amount that is wanted. -/
def distance (wanted : Decimal) (bid : P) : Rat := |(Proposal.target bid).value - wanted.value|

/-- The same distance as decimals carry it, if they can. -/
def carriedDistance (wanted : Decimal) (bid : P) : Option Rat :=
  ((Proposal.target bid).sub wanted).map fun difference => difference.abs.value

/-- To prefer what is nearer to an amount. -/
def nearest (wanted : Decimal) : Preference P := .least (fun _ => True) (distance wanted)

/-- To prefer what is nearer as far as decimals tell. -/
def apparentlyNearest (wanted : Decimal) : Preference P where
  Acceptable bid := (carriedDistance wanted bid).isSome
  Better bid other :=
    ∃ x ∈ carriedDistance wanted bid, ∃ y ∈ carriedDistance wanted other, x < y

variable {wanted : Decimal} {bid other : P} {bids : List P}

theorem closeness_eq_ok_iff {s : Option Decimal} : closeness wanted bid = .ok s ↔
    ∃ d, (Proposal.target bid).sub wanted = some d ∧ s = some d.abs.neg := by
  unfold closeness
  cases (Proposal.target bid).sub wanted <;>
    simp [Fault.ifNone, Except.map, eq_comm]

theorem carriedDistance_eq_some_iff {x : Rat} : carriedDistance wanted bid = some x ↔
    ∃ d, (Proposal.target bid).sub wanted = some d ∧ d.abs.value = x := Option.map_eq_some_iff

/-- There is a score if and only if the distance does not exceed all decimals. -/
theorem exists_closeness_iff :
    (∃ s, closeness wanted bid = .ok s) ↔ distance wanted bid < Decimal.limit - 1 / 2 := by
  rw [distance, ← Decimal.isSome_sub_iff, Option.isSome_iff_exists]
  simp only [closeness_eq_ok_iff]
  constructor
  · rintro ⟨_, d, hd, _⟩
    exact ⟨d, hd⟩
  · rintro ⟨d, hd⟩
    exact ⟨_, d, hd, rfl⟩

theorem carried_le {x y : Rat} (hx : carriedDistance wanted bid = some x)
    (hy : carriedDistance wanted other = some y)
    (hle : distance wanted bid ≤ distance wanted other) : x ≤ y := by
  obtain ⟨d, hd, rfl⟩ := carriedDistance_eq_some_iff.mp hx
  obtain ⟨e, he, rfl⟩ := carriedDistance_eq_some_iff.mp hy
  exact Decimal.abs_sub_le hd he hle

/-- Closeness chooses the bid that is nearest as far as decimals tell. -/
theorem chooses_of_closestToTarget {description : P} {choice : Option P}
    (h : closestToTarget bids description = .ok choice) :
    (apparentlyNearest (Proposal.target description)).Chooses bids choice := by
  have hacceptable : ∀ p : P,
      (Preference.byScore (closeness (Proposal.target description))).Acceptable p ↔
        (apparentlyNearest (Proposal.target description)).Acceptable p := by
    intro p
    simp [Preference.byScore, apparentlyNearest, closeness_eq_ok_iff, Option.isSome_iff_exists,
      carriedDistance]
  refine (chooses_of_selectBest h).imp (fun p => (hacceptable p).mpr) fun hpicks => ?_
  refine hpicks.congr hacceptable fun p q _ _ => ?_
  simp [Preference.byScore, apparentlyNearest, closeness_eq_ok_iff, carriedDistance,
    Decimal.lt_iff_value_lt, Decimal.value_neg]

section Chosen

variable {choice : Option P} (hcarried : ∀ bid ∈ bids, (carriedDistance wanted bid).isSome)
  (h : (apparentlyNearest wanted).Chooses bids choice)

include hcarried h

theorem eq_none_iff_of_chosen : choice = none ↔ bids = [] := by
  rw [h.eq_iff]
  constructor
  · intro hnone
    exact List.eq_nil_iff_forall_not_mem.mpr fun bid hbid => hnone bid hbid (hcarried bid hbid)
  · rintro rfl
    exact fun bid hbid => absurd hbid List.not_mem_nil

/-- As far as decimals tell, no bid is nearer than the one that is chosen. -/
theorem exists_carried_le (hbid : bid ∈ choice) (ho : other ∈ bids) :
    ∃ x y, carriedDistance wanted bid = some x ∧ carriedDistance wanted other = some y ∧
      x ≤ y := by
  obtain rfl : choice = some bid := hbid
  have hasymm : ∀ {p q : P}, (apparentlyNearest wanted).Better p q →
      ¬ (apparentlyNearest wanted).Better q p := by
    rintro p q ⟨x, hx, y, hy, hlt⟩ ⟨y', hy', x', hx', hlt'⟩
    obtain rfl := Option.some.inj (hx.symm.trans hx')
    obtain rfl := Option.some.inj (hy.symm.trans hy')
    exact hlt.asymm hlt'
  have hunbeaten := h.unbeaten hasymm ho (hcarried other ho)
  obtain ⟨y, hy⟩ := Option.isSome_iff_exists.mp (hcarried other ho)
  obtain ⟨before, after, _, hp⟩ := h
  obtain ⟨x, hx⟩ := Option.isSome_iff_exists.mp hp.acceptable
  exact ⟨x, y, hx, hy, le_of_not_gt fun hlt => hunbeaten ⟨y, hy, x, hx, hlt⟩⟩

/-- The choice is the first of the nearest bids if it is told apart from all that are nearer. -/
theorem nearest_chooses_iff : (nearest wanted).Chooses bids choice ↔
    ∀ bid ∈ choice, ∀ other ∈ bids, distance wanted other < distance wanted bid →
      carriedDistance wanted other ≠ carriedDistance wanted bid := by
  constructor
  · rintro hnearest bid rfl other ho hlt _
    have hasymm : ∀ {p q : P}, distance wanted p < distance wanted q →
        ¬ distance wanted q < distance wanted p := fun hpq => hpq.asymm
    exact hnearest.unbeaten hasymm ho trivial hlt
  · intro hapart
    cases choice with
    | none =>
      obtain rfl := (eq_none_iff_of_chosen hcarried h).mp rfl
      exact fun bid hbid => absurd hbid List.not_mem_nil
    | some bid =>
      have hle : ∀ other ∈ bids, ∃ x y, carriedDistance wanted bid = some x ∧
          carriedDistance wanted other = some y ∧ x ≤ y :=
        fun other ho => exists_carried_le hcarried h rfl ho
      obtain ⟨before, after, rfl, hp⟩ := h
      refine ⟨before, after, rfl, trivial, fun other ho _ => ?_, fun other ho _ hlt => ?_⟩
      · obtain ⟨x, hx, y, hy, hless⟩ := hp.better other ho (hcarried other (by simp [ho]))
        exact lt_of_not_ge fun hge => (carried_le hy hx hge).not_gt hless
      · have hmem : other ∈ before ++ bid :: after := by simp [ho]
        obtain ⟨x, y, hx, hy, hxy⟩ := hle other hmem
        have hyx := carried_le hy hx hlt.le
        exact hapart bid rfl other hmem hlt (by rw [hx, hy, le_antisymm hyx hxy])

theorem distance_le_of_chosen (hbid : bid ∈ choice) (ho : other ∈ bids) :
    distance wanted bid ≤ (1 + 1 / 10 ^ 27) * distance wanted other := by
  obtain ⟨x, y, hx, hy, hxy⟩ := exists_carried_le hcarried h hbid ho
  obtain ⟨d, hd, rfl⟩ := carriedDistance_eq_some_iff.mp hx
  obtain ⟨e, he, rfl⟩ := carriedDistance_eq_some_iff.mp hy
  have hbound := Decimal.abs_sub_near hd
  have hbound' := Decimal.abs_sub_near he
  have hpos : 0 ≤ distance wanted other := abs_nonneg _
  change _ * |_ - distance wanted bid| ≤ _ at hbound
  change _ * |_ - distance wanted other| ≤ _ at hbound'
  have hlo := neg_abs_le (d.abs.value - distance wanted bid)
  have hhi := le_abs_self (e.abs.value - distance wanted other)
  unfold Decimal.limit at hbound hbound'
  push_cast at hbound hbound'
  linarith

end Chosen

/-- Closeness has an answer as long as no distance goes beyond the decimals. It answers nothing if
and only if there are no bids, and else the first of the nearest bids, unless another bid is nearer
and its distance is rounded to the same. In no case is another bid nearer by more than a small part
of the distance. -/
theorem closestToTarget_nearest_iff (bids : List P) (description : P) :
    ((∃ choice, closestToTarget bids description = .ok choice) ↔
      ∀ bid ∈ bids, distance (Proposal.target description) bid < Decimal.limit - 1 / 2) ∧
    ∀ choice, closestToTarget bids description = .ok choice →
      (choice = none ↔ bids = []) ∧
      (apparentlyNearest (Proposal.target description)).Chooses bids choice ∧
      ((nearest (Proposal.target description)).Chooses bids choice ↔
        ∀ bid ∈ choice, ∀ other ∈ bids,
          distance (Proposal.target description) other <
            distance (Proposal.target description) bid →
          carriedDistance (Proposal.target description) other ≠
            carriedDistance (Proposal.target description) bid) ∧
      ∀ bid ∈ choice, ∀ other ∈ bids, distance (Proposal.target description) bid ≤
        (1 + 1 / 10 ^ 27) * distance (Proposal.target description) other := by
  have hscores : ∀ bid ∈ bids, (∃ s, closeness (Proposal.target description) bid = .ok s) ↔
      distance (Proposal.target description) bid < Decimal.limit - 1 / 2 :=
    fun bid _ => exists_closeness_iff
  constructor
  · constructor
    · rintro ⟨choice, hchoice⟩ bid hbid
      exact (hscores bid hbid).mp ((selectBest_eq_ok hchoice).2 bid hbid)
    · intro hall
      exact exists_selectBest_eq_ok fun bid hbid => (hscores bid hbid).mpr (hall bid hbid)
  · intro choice hchoice
    have hchosen := chooses_of_closestToTarget hchoice
    have hcarried : ∀ bid ∈ bids,
        (carriedDistance (Proposal.target description) bid).isSome := by
      intro bid hbid
      obtain ⟨s, hs⟩ := (selectBest_eq_ok hchoice).2 bid hbid
      obtain ⟨d, hd, _⟩ := closeness_eq_ok_iff.mp hs
      rw [carriedDistance, hd]
      rfl
    exact ⟨eq_none_iff_of_chosen hcarried hchosen, hchosen, nearest_chooses_iff hcarried hchosen,
      fun bid hbid other ho => distance_le_of_chosen hcarried hchosen hbid ho⟩

/-- Bids of 50, 95 and 105. -/
def aroundHundred : List Amount := [⟨.ofInt64 50⟩, ⟨.ofInt64 95⟩, ⟨.ofInt64 105⟩]

/-- The last two are equally near to 100, and the first of them is chosen. -/
theorem closestToTarget_nearest_iff_around :
    closestToTarget aroundHundred ⟨.ofInt64 100⟩ = .ok (some ⟨.ofInt64 95⟩) ∧
      (nearest (.ofInt64 100)).Chooses aroundHundred (some ⟨.ofInt64 95⟩) := by
  have hchoice : closestToTarget aroundHundred ⟨.ofInt64 100⟩ = .ok (some ⟨.ofInt64 95⟩) := by
    decide +kernel
  have hnone : ∀ other ∈ aroundHundred, ¬ distance (.ofInt64 100) other <
      distance (.ofInt64 100) (⟨.ofInt64 95⟩ : Amount) := by decide +kernel
  refine ⟨hchoice, ?_⟩
  refine ((closestToTarget_nearest_iff aroundHundred ⟨.ofInt64 100⟩).2 _ hchoice).2.2.1.mpr ?_
  rintro bid hbid other ho hlt
  obtain rfl := Option.some.inj hbid
  exact absurd hlt (hnone other ho)

/-- One half, and one grain more. -/
def halfAndMore : Decimal := ⟨false, 5000000000000000000000000001, 28, by decide, Nat.le_refl 28⟩

/-- Of bids of one half and one grain more the second is nearer to 100 by that grain, but its
distance is rounded to 99.5, and the first is chosen. -/
theorem closestToTarget_not_nearest :
    closestToTarget [WorkProposal.new "half" .half, .new "more" halfAndMore]
        (.new "call" (.ofInt64 100)) = .ok (some (.new "half" .half)) ∧
      (nearest (.ofInt64 100)).Chooses [WorkProposal.new "half" .half, .new "more" halfAndMore]
        (some (.new "more" halfAndMore)) := by
  refine ⟨by decide +kernel, [.new "half" .half], [], rfl, trivial, ?_, ?_⟩
  · intro other ho _
    obtain rfl := List.mem_singleton.mp ho
    change distance (.ofInt64 100) (WorkProposal.new "more" halfAndMore) <
      distance (.ofInt64 100) (WorkProposal.new "half" .half)
    decide +kernel
  · exact fun other ho => absurd ho List.not_mem_nil

end DemandResponse.Negotiation
