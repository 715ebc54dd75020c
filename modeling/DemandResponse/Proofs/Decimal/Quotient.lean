import DemandResponse.Proofs.Decimal.Rounding

/-!
# Quotients of positive numbers

A quotient is rounded half to even at the first number of places, from 28 down, at which it is
short enough. From one on it never falls below one.
-/

namespace DemandResponse.Decimal

open Digits (tenTo)

variable {a b : Int} {s t : Nat} {x : Decimal}

theorem ofParts?_natCast (n t : Nat) : ofParts? (n : Int) t = build? false n t := by
  rw [ofParts?, decide_eq_false (by omega), Int.natAbs_natCast]

theorem build?_eq_some {negative : Bool} {c : Nat} (h : build? negative c t = some x) :
    x.negative = negative ∧ x.coefficient = c ∧ x.scale = t := by
  unfold build? at h
  split at h
  · obtain rfl := Option.some.inj h
    exact ⟨rfl, rfl, rfl⟩
  · cases h

theorem sign_mul_sign (ha : 0 < a) (hb : 0 < b) (n : Nat) : a.sign * b.sign * n = n := by
  rw [Int.sign_eq_one_of_pos ha, Int.sign_eq_one_of_pos hb, Int.one_mul, Int.one_mul]

theorem quotientAt_succ (ha : 0 < a) (hb : 0 < b) (t : Nat) :
    quotientAt a b (t + 1) =
      (build? false (halfEven (a.natAbs * tenTo (t + 1)) b.natAbs) (t + 1)).or
        (quotientAt a b t) := by
  rw [quotientAt, sign_mul_sign ha hb, ofParts?_natCast]
  cases build? false (halfEven (a.natAbs * tenTo (t + 1)) b.natAbs) (t + 1) <;> rfl

/-- A quotient of positive numbers is rounded at its own last place. -/
theorem quotientAt_eq_some (ha : 0 < a) (hb : 0 < b) (h : quotientAt a b t = some x) :
    x.negative = false ∧ x.coefficient = halfEven (a.natAbs * tenTo x.scale) b.natAbs := by
  induction t with
  | zero =>
    rw [quotientAt, sign_mul_sign ha hb, ofParts?_natCast] at h
    obtain ⟨hsign, hc, hs⟩ := build?_eq_some h
    rw [hs, Digits.tenTo_zero, Nat.mul_one]
    exact ⟨hsign, hc⟩
  | succ t ih =>
    rw [quotientAt_succ ha hb, Option.or_eq_some_iff] at h
    rcases h with h | ⟨_, h⟩
    · obtain ⟨hsign, hc, hs⟩ := build?_eq_some h
      rw [hs]
      exact ⟨hsign, hc⟩
    · exact ih h

theorem quotientAt_of_short (ha : 0 < a) (hb : 0 < b) (hs : t + 1 ≤ places)
    (h : halfEven (a.natAbs * tenTo (t + 1)) b.natAbs < limit) :
    ∃ x, quotientAt a b (t + 1) = some x ∧ x.negative = false ∧
      x.coefficient = halfEven (a.natAbs * tenTo (t + 1)) b.natAbs ∧ x.scale = t + 1 := by
  have hbuild : build? false (halfEven (a.natAbs * tenTo (t + 1)) b.natAbs) (t + 1) =
      some ⟨false, _, t + 1, h, hs⟩ := dif_pos ⟨h, hs⟩
  refine ⟨⟨false, _, t + 1, h, hs⟩, ?_, rfl, rfl, rfl⟩
  rw [quotientAt_succ ha hb, hbuild, Option.some_or]

/-- A quotient that is short enough at 28 places has 28 places. -/
theorem quotient_of_short (ha : 0 < a) (hb : 0 < b)
    (h : halfEven (a.natAbs * tenTo 28) b.natAbs < limit) :
    ∃ x, quotient a b = some x ∧ x.negative = false ∧
      x.coefficient = halfEven (a.natAbs * tenTo 28) b.natAbs ∧ x.scale = 28 := by
  rw [quotient, show places = 27 + 1 from rfl]
  exact quotientAt_of_short ha hb (Nat.le_refl places) h

/-- A quotient of no less than one is rounded to no less than one. -/
theorem tenTo_le_halfEven {r c : Nat} (hc : 0 < c) (h : c ≤ r) (t : Nat) :
    tenTo t ≤ halfEven (r * tenTo t) c := by
  refine Nat.le_trans ?_ (le_halfEven _ c)
  rw [Nat.le_div_iff_mul_le hc, Nat.mul_comm]
  exact Nat.mul_le_mul_right _ h

theorem le_one_iff (hsign : x.negative = false) : x ≤ 1 ↔ x.coefficient ≤ tenTo x.scale := by
  have hm : x.mantissa = x.coefficient := by
    rw [mantissa, hsign]
    rfl
  change x.mantissa * tenTo 0 ≤ 1 * tenTo x.scale ↔ _
  rw [hm, Digits.tenTo_zero, Int.natCast_one, Int.mul_one, Int.one_mul, Int.ofNat_le]

end DemandResponse.Decimal
