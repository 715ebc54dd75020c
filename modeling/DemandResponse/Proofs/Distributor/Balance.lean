import DemandResponse.Proofs.Distributor.Limits
import Mathlib.Algebra.Order.BigOperators.Group.List

/-!
# Signals add up to the imbalance

An imbalance within the capacity is met by the exact shares of all bands together. What is handed
out differs from an exact share by half a unit and the little that is lost in decimals, and by
nothing where a band has no limit to give. So the sum of a signal is off by no more than this for
every participant that can do anything, and a single such participant is handed the imbalance.
-/

namespace DemandResponse

namespace Apportionment

variable {imbalance value : Power} {total : Int} {band : Band} {bands : List Band}

/-- A value is within half a unit of the carried share, and so close to the exact one. -/
theorem near_exactShare (h : 0 ≤ total) {k : Nat} (hk : k ≤ 19)
    (hthreshold : ∀ n : Int, n ≤ value.toInt ↔ (2 * n - 1) * 10 ^ 28 ≤
      2 * units imbalance total band + margin (units imbalance total band) k) :
    |(value.toInt : Rat) - exactShare imbalance total band| ≤ 1 / 2 + 1 / 10 ^ 8 := by
  have hfloor := eq_floor_of_threshold hthreshold
  obtain ⟨hlo, hhi⟩ := abs_le.mp (@carriedShare_near imbalance total band h k hk)
  have hbelow := Int.floor_le (carriedShare (units imbalance total band) k + 1 / 2)
  have habove := Int.lt_floor_add_one (carriedShare (units imbalance total band) k + 1 / 2)
  rw [← hfloor] at hbelow habove
  rw [abs_le]
  constructor <;> linarith

/-- An integer that near to an integer is equal to it. -/
theorem eq_of_near {m n : Int} (h : |(m : Rat) - n| ≤ 1 / 2 + 1 / 10 ^ 8) : m = n := by
  have hlt : |(m : Rat) - n| < 1 := lt_of_le_of_lt h (by norm_num)
  have habs : |m - n| < 1 := by exact_mod_cast hlt
  exact Int.sub_eq_zero.mp (Int.abs_lt_one_iff.mp habs)

theorem bound_of_incapable (h : capable imbalance band = 0) : bound imbalance band = 0 := by
  rw [bound_eq, h]
  split <;> rfl

/-- The limits of all bands together are the capacity, under the sign of the imbalance. -/
theorem sum_bound (imbalance : Power) (bands : List Band) :
    (bands.map (bound imbalance)).sum =
      if 0 < imbalance then capacity imbalance bands else -capacity imbalance bands := by
  induction bands with
  | nil => split <;> rfl
  | cons band rest ih =>
    rw [List.map_cons, List.sum_cons, ih, bound_eq, capacity]
    split <;> omega

theorem exactShare_of_incapable (h : capable imbalance band = 0) (total : Int) :
    exactShare imbalance total band = 0 := by
  rw [exactShare, bound_of_incapable h, Int.cast_zero, mul_zero]

/-- The exact shares of some bands are the same part of their limits. -/
theorem sum_exactShare (imbalance : Power) (total : Int) (bands : List Band) :
    (bands.map (exactShare imbalance total)).sum =
      min 1 ((imbalance.toInt.natAbs : Rat) / total) * (bands.map (bound imbalance)).sum := by
  induction bands with
  | nil => simp
  | cons band rest ih =>
    rw [List.map_cons, List.sum_cons, ih, List.map_cons, List.sum_cons, Int.cast_add, mul_add]
    rfl

/-- All exact shares together are the imbalance, if it is within the capacity. -/
theorem sum_exactShare_capacity (hI : imbalance ≠ 0)
    (hcovered : imbalance.toInt.natAbs ≤ capacity imbalance bands) :
    (bands.map (exactShare imbalance (capacity imbalance bands))).sum = imbalance.toInt := by
  have hpos := natAbs_pos hI
  obtain ⟨c, hc⟩ := Int.eq_ofNat_of_zero_le (Int.le_trans (Int.natCast_nonneg _) hcovered)
  have hle : imbalance.toInt.natAbs ≤ c := by omega
  have hpart := @min_one_mul imbalance.toInt.natAbs c (by omega)
  rw [Nat.min_eq_left hle] at hpart
  rw [sum_exactShare, sum_bound, hc]
  split
  · next hup =>
    have h : (imbalance.toInt.natAbs : Int) = imbalance.toInt :=
      Int.natAbs_of_nonneg (Int.le_of_lt (Int64.lt_iff_toInt_lt.mp hup))
    rw [Int.cast_natCast, hpart, ← Int.cast_natCast, h]
  · next hdown =>
    have h : -(imbalance.toInt.natAbs : Int) = imbalance.toInt := by
      have := mt Int64.lt_iff_toInt_lt.mpr hdown
      rw [Int64.toInt_zero] at this
      omega
    rw [Int.cast_neg, Int.cast_natCast, mul_neg, hpart, ← Int.cast_natCast, ← Int.cast_neg, h]

/-- Only the bands that can do anything count in a sum that is zero on the others. -/
theorem sum_map_filter {M : Type} [AddMonoid M] (f : Band → M)
    (hidle : ∀ band ∈ bands, capable imbalance band = 0 → f band = 0) :
    ((bands.filter fun band => capable imbalance band ≠ 0).map f).sum = (bands.map f).sum := by
  induction bands with
  | nil => rfl
  | cons band rest ih =>
    have hrest := ih fun b hb => hidle b (List.mem_cons_of_mem band hb)
    by_cases h : capable imbalance band = 0
    · rw [List.filter_cons_of_neg (by simpa using h), hrest, List.map_cons, List.sum_cons,
        hidle band List.mem_cons_self h, zero_add]
    · rw [List.filter_cons_of_pos (by simpa using h), List.map_cons, List.sum_cons, hrest,
        List.map_cons, List.sum_cons]

/-- Deviations add up. -/
theorem abs_sum_sub_sum_le {ε : Rat} {v : Band → Int} {x : Band → Rat}
    (hnear : ∀ band ∈ bands, |(v band : Rat) - x band| ≤ ε) :
    |((bands.map v).sum : Rat) - (bands.map x).sum| ≤ bands.length * ε := by
  induction bands with
  | nil => simp
  | cons band rest ih =>
    have hhead := abs_le.mp (hnear band List.mem_cons_self)
    have hrest := abs_le.mp (ih fun b hb => hnear b (List.mem_cons_of_mem band hb))
    rw [List.map_cons, List.sum_cons, List.map_cons, List.sum_cons, List.length_cons, abs_le,
      Int.cast_add, Nat.cast_succ]
    constructor <;> linarith

/-- Over valid bands there is a fraction, and every share of it is near the exact one. -/
theorem share_near (hvalid : ∀ band ∈ bands, band.Valid)
    (hlimit : capacity imbalance bands ≤ 10 ^ 26) :
    ∃ f, fraction imbalance bands = .ok f ∧ ∀ band ∈ bands, ∃ v,
      share f imbalance band = .ok v ∧
      |(v.toInt : Rat) - exactShare imbalance (capacity imbalance bands) band| ≤
        1 / 2 + 1 / 10 ^ 8 := by
  obtain ⟨f, hf, hshares⟩ := share_threshold hvalid hlimit
  refine ⟨f, hf, fun band hband => ?_⟩
  obtain ⟨k, v, hk, _, hv, hthreshold⟩ := hshares band hband
  exact ⟨v, hv, near_exactShare (capacity_nonneg hvalid) hk hthreshold⟩

end Apportionment

namespace Distributor

open Apportionment

variable {P σ : Type} [Participant P σ]

/-- A signal over valid bands whose capacity covers the imbalance adds up to the imbalance, except
for half a unit and a millionth for every participant that can do anything. A participant that
can do nothing is handed nothing, and one that is alone in what it can do is handed all. -/
theorem signal_balanced (d : Distributor P) (tick : Tick) (imbalance : Power)
    (hvalid : ∀ band ∈ d.bands, band.Valid) (hlimit : capacity imbalance d.bands ≤ 10 ^ 26)
    (hI : imbalance ≠ 0) (hcovered : imbalance.toInt.natAbs ≤ capacity imbalance d.bands) :
    ∃ value : Band → Power,
      d.signal tick imbalance =
        (.ok (d.registrations.map fun r => ⟨r.id, tick, value r.band⟩),
          ⟨d.registrations.map fun r =>
            { r with participant := Participant.receive r.participant tick (value r.band) }⟩) ∧
      |(((d.bands.map fun band => (value band).toInt).sum : Int) : Rat) - imbalance.toInt| ≤
        (d.bands.countP fun band => capable imbalance band ≠ 0) * (1 / 2 + 1 / 10 ^ 6) ∧
      (∀ band ∈ d.bands, capable imbalance band = 0 → value band = 0) ∧
      ∀ band, d.bands.filter (fun band => capable imbalance band ≠ 0) = [band] →
        value band = imbalance := by
  obtain ⟨f, hf, hshares⟩ := share_near hvalid hlimit
  obtain ⟨value, hsignal, hnear⟩ := signal_of_shares d tick hf hshares
  have hidle : ∀ band ∈ d.bands, capable imbalance band = 0 → (value band).toInt = 0 := by
    intro band hband h
    have := hnear band hband
    rw [exactShare_of_incapable h, ← Int.cast_zero] at this
    exact eq_of_near this
  have hsum := sum_exactShare_capacity hI hcovered
  rw [← sum_map_filter (exactShare imbalance (capacity imbalance d.bands))
    fun band _ h => exactShare_of_incapable h _] at hsum
  have hvalues := sum_map_filter (fun band => (value band).toInt) hidle
  refine ⟨value, hsignal, ?_, fun band hband h => ?_, fun band h => ?_⟩
  · rw [← hvalues, ← hsum, List.countP_eq_length_filter]
    refine (abs_sum_sub_sum_le fun band hband => hnear band (List.mem_filter.mp hband).1).trans ?_
    exact mul_le_mul_of_nonneg_left (by norm_num) (Nat.cast_nonneg _)
  · exact Int64.toInt_inj.mp ((hidle band hband h).trans Int64.toInt_zero.symm)
  · -- alone, the value is near the whole imbalance, and both are integers
    have hmem : band ∈ d.bands :=
      (List.mem_filter.mp (h ▸ List.mem_singleton_self band)).1
    rw [h, List.map_singleton, List.sum_singleton] at hsum
    have := hnear band hmem
    rw [hsum] at this
    exact Int64.toInt_inj.mp (eq_of_near this)

/-- Each half of 5 out of 6 is handed out as 2, and 1 is lost. -/
theorem signal_balanced_sixths :
    (∀ band ∈ sixths.bands, band.Valid) ∧ capacity 5 sixths.bands ≤ 10 ^ 26 ∧ (5 : Power) ≠ 0 ∧
      (5 : Power).toInt.natAbs ≤ capacity 5 sixths.bands ∧
      ∃ value : Band → Power,
        |(((sixths.bands.map fun band => (value band).toInt).sum : Int) : Rat) -
            (5 : Power).toInt| ≤
          (sixths.bands.countP fun band => capable 5 band ≠ 0) * (1 / 2 + 1 / 10 ^ 6) := by
  have hvalid : ∀ band ∈ sixths.bands, band.Valid := by
    intro band hband
    rcases List.mem_pair.mp hband with rfl | rfl <;>
      exact Band.valid_of_nonneg (by decide) (by decide)
  obtain ⟨value, _, h, _⟩ :=
    signal_balanced sixths 1 5 hvalid (by decide) (by decide) (by decide)
  exact ⟨hvalid, by decide, by decide, by decide, value, h⟩

end Distributor

end DemandResponse
