import DemandResponse.Proofs.Matching.Meeting

/-!
# Sums of offers

A selection adds up its offers with a running total that stops at the ends of the range, an
outcome with one that faults there. As long as all offers move the load in one direction, no
partial sum lies beyond the whole one. Both ways are then given by the exact sum, clamped or
checked once at the end.
-/

namespace DemandResponse.Matching

/-- What some offers change together, as an integer. -/
def exactSum : List Offer → Int
  | [] => 0
  | o :: rest => o.signedMagnitude + exactSum rest

@[simp] theorem exactSum_nil : exactSum [] = 0 := rfl

@[simp] theorem exactSum_cons (o : Offer) (rest : List Offer) :
    exactSum (o :: rest) = o.signedMagnitude + exactSum rest := rfl

@[simp] theorem active_nil : active [] = [] := rfl

@[simp] theorem active_cons_some (o : Offer) (selection : Selection) :
    active (some o :: selection) = o :: active selection := rfl

/-- Offers of positive magnitude in one direction. -/
def OneWay (way : Direction) (offers : List Offer) : Prop :=
  ∀ o ∈ offers, o.direction = way ∧ 0 < o.magnitude

instance (way : Direction) (offers : List Offer) : Decidable (OneWay way offers) :=
  inferInstanceAs (Decidable (∀ o ∈ offers, _))

variable {way : Direction} {o : Offer} {offers rest : List Offer}

namespace OneWay

theorem tail (h : OneWay way (o :: rest)) : OneWay way rest :=
  fun x hx => h x (List.mem_cons_of_mem o hx)

theorem inRange (h : OneWay way offers) (ho : o ∈ offers) : Power.InRange o.signedMagnitude :=
  inRange_signedMagnitude (Int64.le_of_lt (h o ho).2)

theorem inRange_head (h : OneWay way (o :: rest)) : Power.InRange o.signedMagnitude :=
  h.inRange List.mem_cons_self

theorem inRange_singleton (h : OneWay way [o]) : Power.InRange (exactSum [o]) := by
  rw [exactSum_cons, exactSum_nil, Int.add_zero]
  exact h.inRange_head

theorem head_pos (h : OneWay way (o :: rest)) : 0 < way.sign * o.signedMagnitude := by
  obtain ⟨rfl, hpos⟩ := h o List.mem_cons_self
  have hpos : 0 < o.magnitude.toInt := Int64.lt_iff_toInt_lt.mp hpos
  unfold Offer.signedMagnitude
  cases o.direction <;> simp only [Direction.sign] <;> omega

/-- Every offer adds one kilowatt or more. -/
theorem length_le (h : OneWay way offers) : offers.length ≤ way.sign * exactSum offers := by
  induction offers with
  | nil => cases way <;> exact Int.le_refl 0
  | cons o rest ih =>
    have hhead := h.head_pos
    have hrest := ih h.tail
    rw [exactSum_cons, List.length_cons, Int.mul_add]
    omega

theorem exactSum_nonneg (h : OneWay way offers) : 0 ≤ way.sign * exactSum offers :=
  Int.le_trans (Int.natCast_nonneg _) h.length_le

end OneWay

/-- Sites with offers in one direction have no contribution out of range. -/
theorem inRange_of_oneWay {sites : List Candidates} (h : ∀ c ∈ sites, OneWay way c.offers) :
    ∀ c ∈ sites, ∀ o ∈ c.offers, Power.InRange o.signedMagnitude :=
  fun c hc _ ho => (h c hc).inRange ho

/-- The sum of an outcome faults if and only if the whole sum is out of range. -/
theorem Outcome.addContributions_eq (h : OneWay way offers) {sum : Power}
    (hsum : 0 ≤ way.sign * sum.toInt) :
    addContributions sum offers =
      Fault.sumOverflow.ifNone (Power.ofInt? (sum.toInt + exactSum offers)) := by
  induction offers generalizing sum with
  | nil =>
    rw [exactSum_nil, Int.add_zero, Power.ofInt?_toInt]
    rfl
  | cons o rest ih =>
    have hhead := h.head_pos
    have hrest := h.tail.exactSum_nonneg
    have hcontribution := Offer.contribution_eq_ok_iff.mpr (Power.toInt_clamp h.inRange_head)
    rw [exactSum_cons, ← Int.add_assoc, addContributions, hcontribution]
    simp only [Power.add, Power.toInt_clamp h.inRange_head]
    by_cases hin : Power.InRange (sum.toInt + o.signedMagnitude)
    · have hnext := Power.toInt_clamp hin
      have hsum' : 0 ≤ way.sign * (Power.clamp (sum.toInt + o.signedMagnitude)).toInt := by
        rw [hnext, Int.mul_add]
        omega
      have hgo := ih h.tail hsum'
      rw [hnext] at hgo
      rw [Power.ofInt?_eq_some_iff.mpr hnext]
      exact hgo
    · -- the sum has left the range on the side on which it goes on
      have hout : ¬ Power.InRange (sum.toInt + o.signedMagnitude + exactSum rest) := by
        unfold Power.InRange Power.least Power.greatest at *
        cases way <;> simp only [Direction.sign] at * <;> omega
      rw [Power.ofInt?_eq_none_iff.mpr hin, Power.ofInt?_eq_none_iff.mpr hout]
      rfl

/-- The running total of a selection stops where the whole sum would. -/
theorem foldl_addClamped_eq (h : OneWay way offers) (sum : Power) :
    offers.foldl (fun sum o => Power.addClamped sum (effect o)) sum =
      Power.clamp (sum.toInt + exactSum offers) := by
  induction offers generalizing sum with
  | nil =>
    rw [← Int64.toInt_inj, exactSum_nil, Int.add_zero, Power.toInt_clamp (Power.inRange_toInt sum)]
    rfl
  | cons o rest ih =>
    have hhead := h.head_pos
    have hrest := h.tail.exactSum_nonneg
    have hsum := Power.inRange_toInt sum
    rw [List.foldl_cons, ih h.tail, ← Int64.toInt_inj, Power.addClamped, effect,
      Power.toInt_clamp h.inRange_head, exactSum_cons]
    simp only [Power.toInt_clamp_eq]
    unfold Power.InRange at hsum
    unfold Power.least Power.greatest at *
    cases way <;> simp only [Direction.sign] at hhead hrest <;> omega

theorem total_eq (h : OneWay way offers) : total offers = Power.clamp (exactSum offers) := by
  rw [total, foldl_addClamped_eq h, Int64.toInt_zero, Int.zero_add]

end DemandResponse.Matching
