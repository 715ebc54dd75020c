import DemandResponse.Decimal.Arithmetic
import DemandResponse.Proofs.FirstBest
import Mathlib.Algebra.Order.Field.Basic
import Mathlib.Data.Rat.Cast.Order

/-!
# Decimals by value

Decimals are compared by cross multiplication, and so by their values as fractions: whatever the
numbers of places, one is less than the other, or the same, if its value is.
-/

namespace DemandResponse.Decimal

variable {a b : Decimal}

theorem across_eq (a b : Decimal) :
    (a.across b : Rat) = a.value * (Digits.tenTo a.scale * Digits.tenTo b.scale) := by
  have ha : (Digits.tenTo a.scale : Rat) ≠ 0 := by
    exact_mod_cast (Digits.tenTo_pos a.scale).ne'
  rw [across, value, ← mul_assoc, div_mul_cancel₀ _ ha]
  push_cast
  rfl

theorem tenTo_mul_pos (a b : Decimal) :
    (0 : Rat) < Digits.tenTo a.scale * Digits.tenTo b.scale := by
  exact_mod_cast Nat.mul_pos (Digits.tenTo_pos a.scale) (Digits.tenTo_pos b.scale)

theorem lt_iff_value_lt : a < b ↔ a.value < b.value := by
  change a.across b < b.across a ↔ _
  rw [← Int.cast_lt (R := Rat), across_eq, across_eq, mul_comm (Digits.tenTo b.scale : Rat)]
  exact mul_lt_mul_iff_left₀ (tenTo_mul_pos a b)

theorem le_iff_value_le : a ≤ b ↔ a.value ≤ b.value := by
  change a.across b ≤ b.across a ↔ _
  rw [← Int.cast_le (R := Rat), across_eq, across_eq, mul_comm (Digits.tenTo b.scale : Rat)]
  exact mul_le_mul_iff_left₀ (tenTo_mul_pos a b)

theorem same_iff_value_eq : a.same b ↔ a.value = b.value := by
  rw [same, beq_iff_eq, ← Int.cast_inj (α := Rat), across_eq, across_eq,
    mul_comm (Digits.tenTo b.scale : Rat)]
  exact mul_left_inj' (tenTo_mul_pos a b).ne'

theorem value_neg (d : Decimal) : d.neg.value = -d.value := by
  have hmantissa : d.neg.mantissa = -d.mantissa := by
    unfold neg mantissa
    cases d.negative <;> simp
  rw [value, value, hmantissa, Int.cast_neg, neg_div]
  rfl

theorem neg_lt_iff : a.neg < b.neg ↔ b < a := by
  rw [lt_iff_value_lt, lt_iff_value_lt, value_neg, value_neg, neg_lt_neg_iff]

/-- The greater of two values ranks first. -/
theorem strictRanking_gt : StrictRanking fun a b : Decimal => b < a where
  asymm h := by
    rw [lt_iff_value_lt] at h ⊢
    exact h.not_gt
  cotrans h c := by
    simp only [lt_iff_value_lt] at h ⊢
    exact (h.gt_or_lt c.value).symm

end DemandResponse.Decimal
