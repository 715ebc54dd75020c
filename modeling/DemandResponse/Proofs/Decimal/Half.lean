import DemandResponse.Proofs.Decimal.Rounding

/-!
# Adding a half and taking the floor

The sum of a decimal and one half is exact if its coefficient is short enough; otherwise its last
digit is rounded away before the floor is taken.
-/

namespace DemandResponse.Decimal

open Digits (tenTo)

variable {x : Decimal} {m n : Int} {s t : Nat}

theorem mantissa_of_sign (h : x.negative = decide (m < 0)) (hc : x.coefficient = m.natAbs) :
    x.mantissa = m := by
  rw [mantissa, h, hc]
  by_cases hm : m < 0
  · rw [if_pos (decide_eq_true hm)]
    omega
  · rw [if_neg (by simpa using hm)]
    omega

/-- A mantissa that is short enough is taken as it stands. -/
theorem fitMantissa_of_short (hm : m.natAbs < limit) (hs : s ≤ places) :
    ∃ x, fitMantissa m s = some x ∧ x.mantissa = m ∧ x.scale = s := by
  refine ⟨_, fit_of_fitted _ (fitted_zero hm) (Nat.zero_le s) hs, ?_, Nat.sub_zero s⟩
  exact mantissa_of_sign rfl (drop_zero _)

/-- One that is a little too long loses its last digit. -/
theorem fitMantissa_of_long (hm : 0 ≤ m) (hlong : limit ≤ m.natAbs) (hup : m.natAbs < 9 * limit)
    (hs : t + 1 ≤ places) :
    ∃ x, fitMantissa m (t + 1) = some x ∧ x.mantissa = halfEven m.natAbs 10 ∧ x.scale = t := by
  have hshort : drop m.natAbs 1 < limit := by
    have h := halfEven_le_succ m.natAbs (tenTo 1)
    rw [show tenTo 1 = 10 from rfl] at h
    unfold limit at hup ⊢
    unfold drop
    rw [show tenTo 1 = 10 from rfl]
    omega
  have hf : Fitted m.natAbs 1 := by
    refine ⟨hshort, fun k hk => ?_⟩
    obtain rfl : k = 0 := by omega
    rwa [drop_zero]
  have hsign : decide (m < 0) = false := decide_eq_false (by omega)
  refine ⟨_, fit_of_fitted _ hf (Nat.le_add_left 1 t) hs, ?_, rfl⟩
  rw [mantissa, hsign]
  rfl

theorem add_half_eq (hx : x.isZero = false) (hs : x.scale = t + 1) :
    x.add half = fitMantissa (x.mantissa + 5 * tenTo t) (t + 1) := by
  have hmax : max x.scale half.scale = t + 1 := by
    rw [hs]
    exact Nat.max_eq_left (Nat.le_add_left 1 t)
  have hself : x.mantissaAt (t + 1) = x.mantissa := by
    rw [mantissaAt, hs, Nat.sub_self, Digits.tenTo_zero]
    exact Int.mul_one _
  rw [add, hx, if_neg Bool.false_ne_true, if_neg (by decide), hmax]
  change fitMantissa (x.mantissaAt (t + 1) + half.mantissaAt (t + 1)) (t + 1) = _
  rw [hself]
  rfl

/-- The floor of a short sum with one half. -/
theorem add_half_of_short (hx : x.isZero = false) (hs : x.scale = t + 1)
    (hm : (x.mantissa + 5 * tenTo t).natAbs < limit) :
    ∃ y, x.add half = some y ∧
      ∀ n : Int, n ≤ y.floor ↔ n * (10 * tenTo t) ≤ x.mantissa + 5 * tenTo t := by
  obtain ⟨y, hy, hym, hys⟩ := fitMantissa_of_short hm (hs ▸ x.scale_le)
  refine ⟨y, (add_half_eq hx hs).trans hy, fun n => ?_⟩
  rw [le_floor_iff, hym, hys, Digits.tenTo_succ]
  push_cast
  rfl

theorem tenTo_le_of_le {a b : Nat} (h : a ≤ b) : tenTo a ≤ tenTo b :=
  Nat.pow_le_pow_right (by decide) h

theorem even_mul_tenTo (n : Int) (t : Nat) : n * tenTo (t + 1) % 2 = 0 := by
  rw [Digits.tenTo_succ]
  push_cast
  rw [show n * (10 * (tenTo t : Int)) = 2 * (5 * (n * tenTo t)) by ring]
  exact Int.mul_emod_right 2 _

/-- The floor of a long sum. Multiples of a power of ten are even, so a last digit of five counts
as a whole. -/
theorem add_half_of_long (hx : x.isZero = false) (hs : x.scale = t + 2) (hpos : 0 ≤ x.mantissa)
    (hm : limit ≤ (x.mantissa + 5 * tenTo (t + 1)).natAbs) :
    ∃ y, x.add half = some y ∧
      ∀ n : Int, n ≤ y.floor ↔
        n * (10 * tenTo (t + 1)) ≤ x.mantissa + 5 * tenTo (t + 1) + 5 := by
  have hscale := hs ▸ x.scale_le
  have hten : tenTo (t + 1) ≤ tenTo 27 := tenTo_le_of_le (by unfold places at hscale; omega)
  have hcoefficient := natAbs_mantissa x ▸ x.coefficient_lt
  have hup : (x.mantissa + 5 * tenTo (t + 1)).natAbs < 9 * limit := by
    rw [show tenTo 27 = 1000000000000000000000000000 from rfl] at hten
    unfold limit at hcoefficient ⊢
    omega
  have hsum : 0 ≤ x.mantissa + 5 * (tenTo (t + 1) : Int) := by omega
  obtain ⟨y, hy, hym, hys⟩ := fitMantissa_of_long hsum hm hup hscale
  refine ⟨y, (add_half_eq hx hs).trans hy, fun n => ?_⟩
  rw [le_floor_iff, hym, hys, le_halfEven_iff_of_even (by decide) (even_mul_tenTo n t)]
  rw [show n * (10 * (tenTo (t + 1) : Int)) = n * tenTo (t + 1) * 10 by ring]
  omega

theorem add_half_of_isZero (hx : x.isZero = true) : x.add half = some half := by
  rw [add, if_pos hx]

theorem mantissaAt_of_whole (hm : x.mantissa = m * tenTo x.scale) (hs : x.scale ≤ s) :
    x.mantissaAt s = m * tenTo s := by
  rw [mantissaAt, hm, Int.mul_assoc, ← Int.natCast_mul, ← tenTo_add, Nat.add_sub_cancel' hs]

/-- A whole number and one half, whatever the places at which it is written. -/
theorem add_half_of_whole (hm : x.mantissa = m * tenTo x.scale) (hx : x.isZero = false)
    (hlimit : m.natAbs < 2 ^ 90) : ∃ y, x.add half = some y ∧ y.floor = m := by
  obtain ⟨t, ht⟩ : ∃ t, max x.scale half.scale = t + 1 :=
    ⟨max x.scale 1 - 1, (Nat.sub_add_cancel (Nat.le_max_right x.scale 1)).symm⟩
  have hle : x.scale ≤ t + 1 := ht ▸ Nat.le_max_left _ _
  have hplaces : t + 1 ≤ places := ht ▸ Nat.max_le.mpr ⟨x.scale_le, half.scale_le⟩
  have hsum : m * tenTo (t + 1) + 5 * tenTo t = (10 * m + 5) * tenTo t := by
    rw [Digits.tenTo_succ]
    push_cast
    ring
  have hten := Digits.tenTo_pos t
  have hshort : (10 * m + 5).natAbs < limit := by
    unfold limit
    omega
  have hadd : x.add half =
      fit (decide ((10 * m + 5) * tenTo t < 0)) ((10 * m + 5).natAbs * tenTo t) (t + 1) := by
    rw [add, hx, if_neg Bool.false_ne_true, if_neg (by decide), ht]
    change fitMantissa (x.mantissaAt (t + 1) + 5 * tenTo t) (t + 1) = _
    rw [mantissaAt_of_whole hm hle, hsum, fitMantissa, Int.natAbs_mul, Int.natAbs_natCast]
  obtain ⟨k, y, hk, hy, hsign, hc, hs⟩ := fit_mul_tenTo (decide ((10 * m + 5) * tenTo t < 0))
    hshort (Nat.le_succ t) hplaces
  have hmantissa : y.mantissa = (10 * m + 5) * tenTo (t - k) := by
    apply mantissa_of_sign
    · rw [hsign, decide_eq_decide, ← not_le, ← not_le, Int.mul_nonneg_iff_of_pos_right (by omega),
        Int.mul_nonneg_iff_of_pos_right (by exact_mod_cast Digits.tenTo_pos (t - k))]
    · rw [hc, Int.natAbs_mul, Int.natAbs_natCast]
  refine ⟨y, hadd.trans hy, eq_of_forall_le_iff fun n => ?_⟩
  rw [le_floor_iff, hmantissa, hs, show t + 1 - k = t - k + 1 by omega, Digits.tenTo_succ]
  push_cast
  rw [← Int.mul_assoc, Int.mul_comm n 10,
    Int.mul_le_mul_iff_of_pos_right (by exact_mod_cast Digits.tenTo_pos (t - k))]
  omega

end DemandResponse.Decimal
