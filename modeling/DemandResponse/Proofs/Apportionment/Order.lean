import DemandResponse.Proofs.Apportionment.Fraction

/-!
# Shares keep the order

How many places a product has depends on its size, and so does the margin within which a half is
still reached. Two products of different size are therefore rounded on different grids, and the
smaller one may have gained more. But all that an integer has to outdo lies on either grid, so a
greater number of units never comes to a smaller integer. This is the case whether the units differ
in the limit of a band or in the fraction that is asked for.
-/

namespace DemandResponse.Apportionment

open Decimal
open Digits (tenTo)

section Thresholds

variable {U W : Int} {k l : Nat}

/-- As long as no more digits go, greater products gain as much or more. -/
theorem margin_le_margin (h : 0 ≤ U) (hUW : U ≤ W) (k : Nat) : margin U k ≤ margin W k := by
  have hdrop : drop U.natAbs k ≤ drop W.natAbs k := halfEven_le_halfEven (by omega) _
  unfold margin
  split
  · next hcarry => rw [if_pos ⟨by omega, by omega⟩]
  · have hpos := Digits.tenTo_pos k
    split <;> omega

theorem margin_of_nonpos (h : U ≤ 0) (k : Nat) : margin U k = tenTo k := by
  rw [margin, if_neg (by omega)]

/-- What an integer has to outdo is a multiple of the last place of any product. -/
theorem threshold_eq (hk : k ≤ 28) (n : Int) :
    (2 * n - 1) * 10 ^ 28 = (2 * n - 1) * tenTo (28 - k) * tenTo k := by
  have h := tenTo_add (28 - k) k
  rw [Nat.sub_add_cancel hk] at h
  have h' : (10 : Int) ^ 28 = tenTo (28 - k) * tenTo k := by exact_mod_cast h
  rw [h', Int.mul_assoc]

/-- What the smaller of two positive products reaches is reached by the greater one. -/
theorem threshold_le_of_nonneg (hU : Fitted U.natAbs k) (hW : Fitted W.natAbs l) (hk : k ≤ 19)
    (h : 0 ≤ U) (hUW : U ≤ W) {n : Int} (hn : (2 * n - 1) * 10 ^ 28 ≤ 2 * U + margin U k) :
    (2 * n - 1) * 10 ^ 28 ≤ 2 * W + margin W l := by
  have hkl : k ≤ l := hU.le_of_le hW (by omega)
  rcases Nat.lt_or_eq_of_le hkl with hlt | rfl
  · -- the products lie on both sides of the greatest one that loses no more digits
    have hbelow := hU.two_mul_le
    have habove := hW.le_two_mul hlt
    rw [Int.natAbs_of_nonneg h] at hbelow
    rw [Int.natAbs_of_nonneg (h.trans hUW)] at habove
    have hgain := margin_lt_mul U k
    have hgain' := tenTo_le_margin W l
    have hcoarse : (10 : Int) * tenTo k ≤ tenTo l := by
      exact_mod_cast Digits.tenTo_succ k ▸ tenTo_le_of_le hlt
    have hpos : (0 : Int) < tenTo k := by exact_mod_cast Digits.tenTo_pos k
    rw [threshold_eq (by omega : k ≤ 28)] at hn ⊢
    generalize (2 * n - 1) * (tenTo (28 - k) : Int) = t at hn ⊢
    have ht : t < 2 * limit + 10 := by
      apply lt_of_mul_lt_mul_right _ hpos.le
      linarith
    have hgrid : t * tenTo k ≤ (2 * limit + 9) * (tenTo k : Int) :=
      Int.mul_le_mul_of_nonneg_right (by omega) hpos.le
    linarith
  · have hgain := margin_le_margin h hUW k
    omega

/-- The same below zero, where the smaller product is the longer one. -/
theorem threshold_le_of_nonpos (hU : Fitted U.natAbs k) (hW : Fitted W.natAbs l) (hk : k ≤ 19)
    (h : W ≤ 0) (hUW : U ≤ W) {n : Int} (hn : (2 * n - 1) * 10 ^ 28 ≤ 2 * U + margin U k) :
    (2 * n - 1) * 10 ^ 28 ≤ 2 * W + margin W l := by
  have hlk : l ≤ k := hW.le_of_le hU (by omega)
  rw [margin_of_nonpos (by omega)] at hn
  rw [margin_of_nonpos h]
  rcases Nat.lt_or_eq_of_le hlk with hlt | rfl
  · obtain ⟨m, rfl⟩ : ∃ m, k = m + 1 := ⟨k - 1, by omega⟩
    have hbelow := hU.le_two_mul (Nat.lt_succ_self m)
    have habove := hW.two_mul_le
    rw [Int.ofNat_natAbs_of_nonpos (by omega)] at hbelow habove
    have hpos : (0 : Int) < tenTo m := by exact_mod_cast Digits.tenTo_pos m
    have hcoarse : (tenTo l : Int) ≤ tenTo m := by
      exact_mod_cast tenTo_le_of_le (by omega : l ≤ m)
    rw [threshold_eq (by omega : m + 1 ≤ 28), Digits.tenTo_succ] at hn ⊢
    generalize (2 * n - 1) * (tenTo (28 - (m + 1)) : Int) = t at hn ⊢
    push_cast at hn ⊢
    have ht : 10 * t ≤ -(2 * limit) + 11 := by
      apply le_of_mul_le_mul_right _ hpos
      linarith
    -- twice the bound of a coefficient ends in 2, so the next multiple of ten is nine lower
    have ht' : 10 * t ≤ -(2 * limit - 2) := by
      unfold limit at ht ⊢
      omega
    have hgrid := Int.mul_le_mul_of_nonneg_right ht' hpos.le
    have hscaled : ((limit : Int) - 1) * tenTo l ≤ (limit - 1) * tenTo m :=
      Int.mul_le_mul_of_nonneg_left hcoarse (by decide)
    linarith
  · omega

end Thresholds

/-- A number of units comes to an integer: to the greatest that its product, with what it gains by
rounding, reaches. -/
def ComesTo (units value : Int) : Prop :=
  ∃ k ≤ 19, Fitted units.natAbs k ∧
    ∀ n : Int, n ≤ value ↔ (2 * n - 1) * 10 ^ 28 ≤ 2 * units + margin units k

/-- More units never come to less. -/
theorem ComesTo.le {U W v w : Int} (h : ComesTo U v) (h' : ComesTo W w) (hUW : U ≤ W) : v ≤ w := by
  obtain ⟨k, hk, hU, hv⟩ := h
  obtain ⟨l, _, hW, hw⟩ := h'
  have hreached := (hv v).mp (Int.le_refl v)
  rw [hw]
  rcases Int.le_total 0 U with hpos | hneg
  · exact threshold_le_of_nonneg hU hW hk hpos hUW hreached
  · rcases Int.le_total 0 W with hpos' | hneg'
    · -- below zero nothing positive is reached, and above it nothing negative is missed
      have hlt := margin_lt U hk
      have hgain := margin_pos W l
      omega
    · exact threshold_le_of_nonpos hU hW hk hneg' hUW hreached

/-- A greater imbalance asks for a greater fraction. -/
theorem parts_le_parts {first second : Power} (h : first.toInt.natAbs ≤ second.toInt.natAbs)
    (total : Int) : parts first total ≤ parts second total := by
  have hmin : min first.toInt.natAbs total.toNat ≤ min second.toInt.natAbs total.toNat := by omega
  exact halfEven_le_halfEven (Nat.mul_le_mul_right _ hmin) _

/-- The same fraction of a greater limit is more. -/
theorem units_le_of_bound_le {imbalance : Power} {band other : Band}
    (h : bound imbalance band ≤ bound imbalance other) (total : Int) :
    units imbalance total band ≤ units imbalance total other :=
  Int.mul_le_mul_of_nonneg_left h (Int.natCast_nonneg _)

end DemandResponse.Apportionment
