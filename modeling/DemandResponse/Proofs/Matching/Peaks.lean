import DemandResponse.Proofs.Matching.Reach

/-!
# The most that one offer per site adds up to

The peak of some offers is the greatest of their magnitudes. With one offer per site, a choice in
one direction never adds up to more than the peaks of all sites together, and one choice adds up
to just that. Where the peaks together are a power value, no sum of a choice is clamped.
-/

namespace DemandResponse

/-- What goes one way, and no farther than to the greatest power, is in range. -/
theorem Direction.inRange_of_sign_mul (way : Direction) {x : Int} (hlo : 0 ≤ way.sign * x)
    (hhi : way.sign * x ≤ Power.greatest) : Power.InRange x := by
  unfold Power.InRange Power.least
  unfold Power.greatest at *
  cases way <;> simp only [Direction.sign] at hlo hhi <;> omega

namespace Matching

open BestFit (Chooses)

/-- The greatest magnitude among some offers, and zero if there are none. -/
def peak : List Offer → Int
  | [] => 0
  | o :: rest => max o.magnitude.toInt (peak rest)

/-- The peaks of some sites together. -/
def combinedPeak : List Candidates → Int
  | [] => 0
  | c :: rest => peak c.offers + combinedPeak rest

variable {sites : List Candidates} {selection : Selection} {way : Direction} {o : Offer}
  {offers : List Offer}

theorem peak_nonneg (offers : List Offer) : 0 ≤ peak offers := by
  induction offers with
  | nil => exact Int.le_refl 0
  | cons o rest ih => exact Int.le_trans ih (Int.le_max_right _ _)

theorem magnitude_le_peak (h : o ∈ offers) : o.magnitude.toInt ≤ peak offers := by
  induction offers with
  | nil => cases h
  | cons x rest ih =>
    rw [peak]
    rcases List.mem_cons.mp h with rfl | h
    · exact Int.le_max_left _ _
    · exact Int.le_trans (ih h) (Int.le_max_right _ _)

/-- A peak that is not zero is the magnitude of an offer. -/
theorem exists_magnitude_eq_peak (h : peak offers ≠ 0) :
    ∃ o ∈ offers, o.magnitude.toInt = peak offers := by
  induction offers with
  | nil => exact absurd rfl h
  | cons o rest ih =>
    rw [peak] at h ⊢
    rcases Int.le_total o.magnitude.toInt (peak rest) with hle | hle
    · rw [Int.max_eq_right hle] at h ⊢
      obtain ⟨x, hx, hmax⟩ := ih h
      exact ⟨x, List.mem_cons_of_mem o hx, hmax⟩
    · rw [Int.max_eq_left hle]
      exact ⟨o, List.mem_cons_self, rfl⟩

theorem combinedPeak_nonneg (sites : List Candidates) : 0 ≤ combinedPeak sites := by
  induction sites with
  | nil => exact Int.le_refl 0
  | cons c rest ih => exact Int.add_nonneg (peak_nonneg c.offers) ih

theorem combinedPeak_of_bare (h : ∀ c ∈ sites, c.offers = []) : combinedPeak sites = 0 := by
  induction sites with
  | nil => rfl
  | cons c rest ih =>
    rw [combinedPeak, h c List.mem_cons_self, ih fun d hd => h d (List.mem_cons_of_mem c hd)]
    rfl

theorem sign_mul_signedMagnitude (o : Offer) :
    o.direction.sign * o.signedMagnitude = o.magnitude.toInt := by
  unfold Offer.signedMagnitude
  cases o.direction <;> simp only [Direction.sign] <;> omega

/-- No choice adds up to more than the peaks. -/
theorem exactSum_le_combinedPeak (h : Chooses selection sites)
    (hway : ∀ c ∈ sites, OneWay way c.offers) :
    way.sign * exactSum (active selection) ≤ combinedPeak sites := by
  induction h with
  | nil => cases way <;> exact Int.le_refl 0
  | @cons decision c selection sites hd _ ih =>
    have hrest := ih fun d hd => hway d (List.mem_cons_of_mem c hd)
    have hpeak := peak_nonneg c.offers
    rw [combinedPeak]
    rcases hd with rfl | ⟨o, ho, rfl⟩
    · exact Int.le_trans hrest (Int.le_add_of_nonneg_left hpeak)
    · obtain ⟨rfl, _⟩ := hway c List.mem_cons_self o ho
      rw [active_cons_some, exactSum_cons, Int.mul_add, sign_mul_signedMagnitude]
      exact Int.add_le_add (magnitude_le_peak ho) hrest

/-- The greatest offer of every site together make up the peaks. -/
theorem exists_chooses_combinedPeak (hway : ∀ c ∈ sites, OneWay way c.offers) :
    ∃ selection, Chooses selection sites ∧
      way.sign * exactSum (active selection) = combinedPeak sites := by
  induction sites with
  | nil => exact ⟨[], .nil, by cases way <;> rfl⟩
  | cons c sites ih =>
    obtain ⟨selection, hchooses, hsum⟩ := ih fun d hd => hway d (List.mem_cons_of_mem c hd)
    rw [combinedPeak]
    by_cases hzero : peak c.offers = 0
    · refine ⟨none :: selection, .cons (Or.inl rfl) hchooses, ?_⟩
      rw [hzero, Int.zero_add, ← hsum]
      rfl
    · obtain ⟨o, ho, hmax⟩ := exists_magnitude_eq_peak hzero
      obtain ⟨rfl, _⟩ := hway c List.mem_cons_self o ho
      refine ⟨some o :: selection, .cons (Or.inr ⟨o, ho, rfl⟩) hchooses, ?_⟩
      rw [active_cons_some, exactSum_cons, Int.mul_add, sign_mul_signedMagnitude, hmax, hsum]

section InRange

variable (hway : ∀ c ∈ sites, OneWay way c.offers)
  (hpeaks : combinedPeak sites ≤ Power.greatest)

include hway hpeaks

/-- Under peaks in range every choice is in range. -/
theorem inRange_of_combinedPeak (h : Chooses selection sites) :
    Power.InRange (exactSum (active selection)) := by
  have hsum := exactSum_le_combinedPeak h hway
  exact way.inRange_of_sign_mul (oneWay_active h hway).exactSum_nonneg (Int.le_trans hsum hpeaks)

/-- The running total of such a choice is its exact sum. -/
theorem toInt_total_of_combinedPeak (h : Chooses selection sites) :
    (total (active selection)).toInt = exactSum (active selection) := by
  rw [total_eq (oneWay_active h hway)]
  exact Power.toInt_clamp (inRange_of_combinedPeak hway hpeaks h)

end InRange

end Matching

end DemandResponse
