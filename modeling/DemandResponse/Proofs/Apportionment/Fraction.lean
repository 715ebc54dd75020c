import DemandResponse.Proofs.Apportionment.Share
import DemandResponse.Proofs.Decimal.Quotient

/-!
# What the fraction comes to

The fraction that an imbalance asks for is the quotient of the imbalance and the capacity,
rounded to 28 places, and a decimal of value one from where the imbalance is not below the
capacity.
-/

namespace DemandResponse.Apportionment

open Decimal
open Digits (tenTo)

variable {imbalance : Power} {total : Int} {bands : List Band}

theorem natAbs_pos (hI : imbalance ≠ 0) : 0 < imbalance.toInt.natAbs := by
  rw [Int.natAbs_pos]
  exact fun h => hI (Int64.toInt_inj.mp h)

/-- Without an imbalance nobody is asked for anything. -/
theorem fraction_zero (bands : List Band) : fraction 0 bands = .ok 0 := by
  rw [fraction]
  exact if_pos (Or.inl rfl)

/-- No fraction exceeds one. -/
theorem parts_le (imbalance : Power) (h : 0 ≤ total) : parts imbalance total ≤ 10 ^ 28 := by
  rcases Int.lt_or_eq_of_le h with h | rfl
  · have hc : 0 < total.toNat := by omega
    have hle : min imbalance.toInt.natAbs total.toNat * 10 ^ 28 ≤ total.toNat * 10 ^ 28 :=
      Nat.mul_le_mul_right _ (Nat.min_le_right _ _)
    have hiff := @halfEven_le_iff_of_even (min imbalance.toInt.natAbs total.toNat * 10 ^ 28)
      total.toNat (10 ^ 28) hc (by decide)
    have := hiff.mpr (by omega)
    unfold parts
    omega
  · unfold parts
    rw [Int.toNat_zero, Nat.min_zero, Nat.zero_mul]
    decide

/-- An imbalance that nobody can outdo asks for all. -/
theorem parts_of_le (hpos : 0 < total) (h : total ≤ imbalance.toInt.natAbs) :
    parts imbalance total = 10 ^ 28 := by
  rw [parts, Nat.min_eq_right (by omega), Nat.mul_comm]
  exact halfEven_mul _ (by omega)

/-- A capacity that is a decimal has a fraction, which stands for the part of the capacity that is
asked for. -/
theorem fraction_standsFor_of_lt_limit (hI : imbalance ≠ 0) (h : 0 ≤ capacity imbalance bands)
    (hlimit : capacity imbalance bands < limit) :
    ∃ f, fraction imbalance bands = .ok f ∧
      StandsFor imbalance (capacity imbalance bands) f := by
  generalize htotal : capacity imbalance bands = total at h hlimit
  unfold fraction
  simp only [htotal]
  rcases Int.lt_or_eq_of_le h with hpos | rfl
  · have hc : 0 < total.toNat := by omega
    have hnat : total.toNat = total.natAbs := by omega
    have hr : (0 : Int) < imbalance.toInt.natAbs := by exact_mod_cast natAbs_pos hI
    have hshort : ¬ limit ≤ total.natAbs := by omega
    rw [if_neg (by simp [hI, Int.ne_of_gt hpos]), if_neg hshort]
    rcases Nat.lt_or_ge total.toNat imbalance.toInt.natAbs with hgt | hle
    · have hparts : parts imbalance total = 10 ^ 28 := parts_of_le hpos (by omega)
      cases hq : Decimal.quotient imbalance.toInt.natAbs total with
      | none => exact ⟨1, rfl, .whole rfl rfl hparts⟩
      | some q =>
        obtain ⟨hsign, hcoefficient⟩ := quotientAt_eq_some hr hpos hq
        rw [Int.natAbs_natCast, ← hnat] at hcoefficient
        -- a quotient that passes for at most one is one, at whatever scale it was fitted
        have hle := tenTo_le_halfEven hc (Nat.le_of_lt hgt) q.scale
        by_cases hone : q ≤ 1
        · have := (le_one_iff hsign).mp hone
          exact ⟨q, by simp only [if_pos hone], .whole hsign (by omega) hparts⟩
        · exact ⟨1, by simp only [if_neg hone], .whole rfl rfl hparts⟩
    · have hparts : halfEven (imbalance.toInt.natAbs * tenTo 28) total.toNat =
          parts imbalance total := by
        rw [parts, Nat.min_eq_left hle]
        rfl
      have hsmall := parts_le imbalance h
      obtain ⟨q, hq, hsign, hcoefficient, hs⟩ := quotient_of_short hr hpos (by
        rw [Int.natAbs_natCast, ← hnat, hparts]
        unfold limit
        omega)
      rw [Int.natAbs_natCast, ← hnat, hparts] at hcoefficient
      have hone : q ≤ 1 := by
        rw [le_one_iff hsign, hcoefficient, hs]
        exact hsmall
      rw [hq]
      exact ⟨q, by simp only [if_pos hone], .part hsign hcoefficient hs⟩
  · refine ⟨0, if_pos (Or.inr rfl), .nothing rfl ?_⟩
    unfold parts
    rw [Int.toNat_zero, Nat.min_zero, Nat.zero_mul]
    rfl

theorem fraction_standsFor (hI : imbalance ≠ 0) (h : 0 ≤ capacity imbalance bands)
    (hlimit : capacity imbalance bands ≤ 10 ^ 26) :
    ∃ f, fraction imbalance bands = .ok f ∧
      StandsFor imbalance (capacity imbalance bands) f :=
  fraction_standsFor_of_lt_limit hI h (Int.lt_of_le_of_lt hlimit (by decide))

end DemandResponse.Apportionment
