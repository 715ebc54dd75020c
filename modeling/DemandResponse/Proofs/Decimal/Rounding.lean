import DemandResponse.Decimal.Arithmetic
import Mathlib.Algebra.Order.Floor.Ring
import Mathlib.Data.Rat.Floor
import Mathlib.Tactic.Linarith
import Mathlib.Tactic.Ring

/-!
# Rounding to a grid

Where a quotient rounded half to even lies with respect to a number. At an even number halves
round towards it from both sides, at an odd one away from it. A coefficient that is too long
loses the fewest digits that make it short enough.
-/

namespace DemandResponse.Decimal

variable {n d : Nat} {g : Int}

/-- A quotient is rounded to the integer below it or to the next. -/
theorem halfEven_eq (n : Nat) (hd : 0 < d) : ∃ q r : Nat, (n : Int) = q * d + r ∧ r < d ∧
    halfEven n d = if d < 2 * r ∨ 2 * r = d ∧ q % 2 = 1 then q + 1 else q := by
  refine ⟨n / d, n % d, ?_, Nat.mod_lt n hd, rfl⟩
  rw [Int.mul_comm]
  exact_mod_cast (Nat.div_add_mod n d).symm

/-- Two multiples of the divisor are the same or at least a divisor apart. -/
theorem mul_trichotomy (g q : Int) (d : Nat) :
    g < q ∧ g * d + d ≤ q * d ∨ g = q ∨ g = q + 1 ∧ g * d = q * d + d ∨
      q + 1 < g ∧ q * d + d + d ≤ g * d := by
  have hmono : ∀ {a b : Int}, a ≤ b → a * d ≤ b * d := fun h =>
    Int.mul_le_mul_of_nonneg_right h (Int.natCast_nonneg d)
  rcases Int.lt_trichotomy g q with h | h | h
  · have hm := hmono (Int.add_one_le_of_lt h)
    rw [Int.add_mul, Int.one_mul] at hm
    exact Or.inl ⟨h, hm⟩
  · exact Or.inr (Or.inl h)
  · rcases Int.lt_or_eq_of_le (Int.add_one_le_of_lt h) with h | h
    · have hm := hmono (Int.add_one_le_of_lt h)
      rw [Int.add_mul, Int.add_mul, Int.one_mul] at hm
      exact Or.inr (Or.inr (Or.inr ⟨h, hm⟩))
    · exact Or.inr (Or.inr (Or.inl ⟨h.symm, by rw [← h, Int.add_mul, Int.one_mul]⟩))

theorem le_halfEven_iff_of_even (hd : 0 < d) (hg : g % 2 = 0) :
    g ≤ halfEven n d ↔ 2 * (g * d) ≤ 2 * n + d := by
  obtain ⟨q, r, hn, hr, h⟩ := halfEven_eq n hd
  rw [h]
  -- of all integers only `q + 1` can be reached from `q`, and it is even where `q` is odd
  rcases mul_trichotomy g q d with ⟨h₁, h₂⟩ | rfl | ⟨rfl, h₁⟩ | ⟨h₁, h₂⟩ <;> split <;> omega

theorem halfEven_le_iff_of_even (hd : 0 < d) (hg : g % 2 = 0) :
    halfEven n d ≤ g ↔ 2 * n ≤ 2 * (g * d) + d := by
  obtain ⟨q, r, hn, hr, h⟩ := halfEven_eq n hd
  rw [h]
  rcases mul_trichotomy g q d with ⟨h₁, h₂⟩ | rfl | ⟨rfl, h₁⟩ | ⟨h₁, h₂⟩ <;> split <;> omega

theorem le_halfEven_iff_of_odd (hd : 0 < d) (hg : g % 2 = 1) :
    g ≤ halfEven n d ↔ 2 * (g * d) < 2 * n + d := by
  obtain ⟨q, r, hn, hr, h⟩ := halfEven_eq n hd
  rw [h]
  rcases mul_trichotomy g q d with ⟨h₁, h₂⟩ | rfl | ⟨rfl, h₁⟩ | ⟨h₁, h₂⟩ <;> split <;> omega

/-- A rounded quotient is at most half a unit off. -/
theorem halfEven_bounds (hd : 0 < d) :
    2 * ((halfEven n d : Int) * d) ≤ 2 * n + d ∧
      2 * (n : Int) ≤ 2 * ((halfEven n d : Int) * d) + d := by
  obtain ⟨q, r, hn, hr, h⟩ := halfEven_eq n hd
  rw [h, hn]
  split
  · push_cast
    rw [Int.add_mul]
    omega
  · omega

theorem halfEven_le_succ (n d : Nat) : halfEven n d ≤ n / d + 1 := by
  unfold halfEven
  split <;> omega

theorem le_halfEven (n d : Nat) : n / d ≤ halfEven n d := by
  unfold halfEven
  split <;> omega

/-- Rounding keeps the order of numerators. -/
theorem halfEven_le_halfEven {m : Nat} (h : n ≤ m) (d : Nat) : halfEven n d ≤ halfEven m d := by
  have hquotient : n / d ≤ m / d := Nat.div_le_div_right h
  rcases Nat.lt_or_eq_of_le hquotient with hlt | heq
  · have hup := halfEven_le_succ n d
    have hlo := le_halfEven m d
    omega
  · -- of two numerators with the same whole part the remainders decide
    have hn := Nat.div_add_mod n d
    have hm := Nat.div_add_mod m d
    rw [← heq] at hm
    unfold halfEven
    rw [← heq]
    split <;> split <;> omega

/-- A quotient without a remainder needs no rounding. -/
theorem halfEven_mul (q : Nat) (hd : 0 < d) : halfEven (q * d) d = q := by
  rw [halfEven, if_neg, Nat.mul_div_cancel q hd]
  rw [Nat.mul_mod_left]
  omega

/-- A number of digits that have to go, and no more. -/
structure Fitted (coefficient digits : Nat) : Prop where
  short : drop coefficient digits < limit
  long : ∀ k < digits, limit ≤ drop coefficient k

variable {c k s m : Nat}

theorem drop_zero (c : Nat) : drop c 0 = c := by
  have h := halfEven_mul c Nat.one_pos
  rwa [Nat.mul_one] at h

theorem fitted_zero (h : c < limit) : Fitted c 0 where
  short := by rwa [drop_zero]
  long k hk := by cases hk

theorem exists_fitted (h : drop c m < limit) : ∃ k ≤ m, Fitted c k := by
  have hex : ∃ k, drop c k < limit := ⟨m, h⟩
  refine ⟨Nat.find hex, Nat.find_min' hex h, Nat.find_spec hex, ?_⟩
  intro j hj
  exact Nat.le_of_not_lt (Nat.find_min hex hj)

/-- A coefficient does not vanish by losing digits that it has to lose. -/
theorem Fitted.drop_pos (h : Fitted c k) (hc : 0 < c) : 0 < drop c k := by
  cases k with
  | zero => rwa [drop_zero]
  | succ k =>
    have hlong := h.long k (Nat.lt_succ_self k)
    have hup := halfEven_le_succ c (Digits.tenTo k)
    refine Nat.lt_of_lt_of_le ?_ (le_halfEven c (Digits.tenTo (k + 1)))
    rw [Digits.tenTo_succ, Nat.mul_comm, ← Nat.div_div_eq_div_mul]
    unfold drop at hlong
    unfold limit at hlong
    omega

section Size

variable {c' l : Nat}

/-- A greater coefficient has to lose at least as many digits. -/
theorem Fitted.le_of_le (h : Fitted c k) (h' : Fitted c' l) (hc : c ≤ c') : k ≤ l := by
  by_contra hlt
  have hlong := h.long l (Nat.lt_of_not_le hlt)
  have hdrop : drop c l ≤ drop c' l := halfEven_le_halfEven hc _
  have hshort := h'.short
  omega

/-- The greatest coefficient that is short enough without some digits. -/
theorem Fitted.two_mul_le (h : Fitted c k) :
    2 * (c : Int) ≤ (2 * limit - 1) * Digits.tenTo k := by
  have hbounds := (@halfEven_bounds c (Digits.tenTo k) (Digits.tenTo_pos k)).2
  have hshort : (drop c k : Int) + 1 ≤ limit := by exact_mod_cast h.short
  have hmul := Int.mul_le_mul_of_nonneg_right hshort (Int.natCast_nonneg (Digits.tenTo k))
  rw [drop] at hmul
  linarith

/-- The least coefficient for which fewer digits are not enough. -/
theorem Fitted.le_two_mul (h : Fitted c k) (hl : l < k) :
    (2 * limit - 1) * (Digits.tenTo l : Int) ≤ 2 * c := by
  have heven : ((limit : Nat) : Int) % 2 = 0 := by decide
  have hlong : ((limit : Nat) : Int) ≤ drop c l := by exact_mod_cast h.long l hl
  have hbound := (@le_halfEven_iff_of_even c _ _ (Digits.tenTo_pos l) heven).mp hlong
  linarith

end Size

theorem fitAt_of_fitted (negative : Bool) (h : Fitted c k) (hk : k ≤ s) (hs : s ≤ places)
    {bound : Nat} (hlo : s - k ≤ bound) (hhi : bound ≤ s) :
    fitAt negative c s bound = build? negative (drop c k) (s - k) := by
  induction bound with
  | zero =>
    obtain rfl : k = s := by omega
    rw [fitAt, Nat.sub_self]
  | succ t ih =>
    by_cases ht : s - k = t + 1
    · have hsub : s - (t + 1) = k := by omega
      have hfound : build? negative (drop c k) (t + 1) =
          some ⟨negative, drop c k, t + 1, h.short, Nat.le_trans hhi hs⟩ :=
        dif_pos ⟨h.short, Nat.le_trans hhi hs⟩
      rw [fitAt, hsub, ht, hfound]
    · have hlong := h.long (s - (t + 1)) (by omega)
      have hmissed : build? negative (drop c (s - (t + 1))) (t + 1) = none :=
        dif_neg fun hb => Nat.not_lt_of_le hlong hb.1
      rw [fitAt, hmissed]
      exact ih (by omega) (by omega)

/-- A coefficient is fitted by dropping just the digits that have to go. -/
theorem fit_of_fitted (negative : Bool) (h : Fitted c k) (hk : k ≤ s) (hs : s ≤ places) :
    fit negative c s =
      some ⟨negative, drop c k, s - k, h.short, Nat.le_trans (Nat.sub_le s k) hs⟩ := by
  rw [fit, Nat.min_eq_left hs,
    fitAt_of_fitted negative h hk hs (Nat.sub_le s k) (Nat.le_refl s)]
  exact dif_pos ⟨h.short, Nat.le_trans (Nat.sub_le s k) hs⟩

theorem tenTo_add (a b : Nat) : Digits.tenTo (a + b) = Digits.tenTo a * Digits.tenTo b :=
  Nat.pow_add 10 a b

/-- Zeros at the end can be dropped without rounding. -/
theorem drop_mul_tenTo (q : Nat) {e : Nat} (hk : k ≤ e) :
    drop (q * Digits.tenTo e) k = q * Digits.tenTo (e - k) := by
  have he : Digits.tenTo e = Digits.tenTo (e - k) * Digits.tenTo k := by
    rw [← tenTo_add, Nat.sub_add_cancel hk]
  rw [drop, he, ← Nat.mul_assoc]
  exact halfEven_mul _ (Digits.tenTo_pos k)

/-- A result that is short without its last zeros is exact. -/
theorem fit_mul_tenTo (negative : Bool) {q e : Nat} (hq : q < limit) (he : e ≤ s)
    (hs : s ≤ places) :
    ∃ k x, k ≤ e ∧ fit negative (q * Digits.tenTo e) s = some x ∧ x.negative = negative ∧
      x.coefficient = q * Digits.tenTo (e - k) ∧ x.scale = s - k := by
  have hshort : drop (q * Digits.tenTo e) e < limit := by
    rw [drop_mul_tenTo q (Nat.le_refl e), Nat.sub_self, Digits.tenTo_zero, Nat.mul_one]
    exact hq
  obtain ⟨k, hk, hf⟩ := exists_fitted hshort
  exact ⟨k, _, hk, fit_of_fitted negative hf (Nat.le_trans hk he) hs, rfl,
    drop_mul_tenTo q hk, rfl⟩

theorem le_floor_iff {x : Decimal} {n : Int} :
    n ≤ x.floor ↔ n * Digits.tenTo x.scale ≤ x.mantissa :=
  Int.le_ediv_iff_mul_le (Int.natCast_pos.mpr (Digits.tenTo_pos x.scale))

end DemandResponse.Decimal
