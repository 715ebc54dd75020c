import DemandResponse.Proofs.Decimal.Half
import DemandResponse.Proofs.Decimal.Order
import Mathlib.Algebra.Order.AbsoluteValue.Basic
import Mathlib.Tactic.FieldSimp

/-!
# Differences as decimals carry them

All decimals are whole numbers of grains, units of the last place that there can be, and so are
their exact differences. A difference that is too long is rounded, in grains, to the fewest zeros at
its end that make it short enough. How many these are depends on its size alone, not on the places
of the operands. So a smaller difference never becomes the greater one, but two that differ may
become the same.
-/

namespace DemandResponse.Decimal

open Digits (tenTo)

/-- A decimal as a number of grains. -/
def grains (d : Decimal) : Int := d.mantissaAt places

/-- How many grains two decimals are apart. -/
def apart (a b : Decimal) : Nat := (a.grains - b.grains).natAbs

/-- What a number of grains comes to with the fewest zeros at its end that make it short enough. -/
def RoundsTo (c r : Nat) : Prop := ∃ k ≤ places, Fitted c k ∧ r = drop c k * tenTo k

section Rounding

variable {c c' d e k l n m r r' s : Nat}

/-- A coefficient that had to lose a digit more is greater than any that had not. -/
theorem le_drop_of_lt (h : Fitted c k) (hl : l < k) : limit ≤ drop c k * tenTo (k - l) := by
  obtain ⟨j, rfl⟩ : ∃ j, k = j + 1 := ⟨k - 1, by omega⟩
  have hlong := h.le_two_mul (Nat.lt_succ_self j)
  -- a tenth of the bound and a little more is even, so that it is reached by rounding
  have heven : ((limit / 10 + 1 : Nat) : Int) % 2 = 0 := by decide
  have hdrop : ((limit / 10 + 1 : Nat) : Int) ≤ drop c (j + 1) := by
    rw [drop, le_halfEven_iff_of_even (Digits.tenTo_pos (j + 1)) heven, Digits.tenTo_succ]
    have hpos : (0 : Int) < tenTo j := by exact_mod_cast Digits.tenTo_pos j
    unfold limit at hlong ⊢
    push_cast at hlong ⊢
    linarith
  have hten : tenTo 1 ≤ tenTo (j + 1 - l) := tenTo_le_of_le (by omega)
  calc limit
    _ ≤ (limit / 10 + 1) * tenTo 1 := by decide
    _ ≤ drop c (j + 1) * tenTo (j + 1 - l) := Nat.mul_le_mul (by exact_mod_cast hdrop) hten

theorem RoundsTo.le (h : RoundsTo c r) (h' : RoundsTo c' r') (hle : c ≤ c') : r ≤ r' := by
  obtain ⟨k, _, hf, rfl⟩ := h
  obtain ⟨l, _, hf', rfl⟩ := h'
  rcases Nat.lt_or_eq_of_le (hf.le_of_le hf' hle) with hlt | rfl
  · have hshort := hf.short
    have hlong := le_drop_of_lt hf' hlt
    calc drop c k * tenTo k
      _ ≤ drop c' l * tenTo (l - k) * tenTo k := Nat.mul_le_mul_right _ (by omega)
      _ = drop c' l * tenTo l := by rw [Nat.mul_assoc, ← tenTo_add, Nat.sub_add_cancel hlt.le]
  · exact Nat.mul_le_mul_right _ (halfEven_le_halfEven hle _)

/-- A factor that numerator and denominator share does not matter. -/
theorem halfEven_mul_mul (n d : Nat) (hm : 0 < m) : halfEven (n * m) (d * m) = halfEven n d := by
  have hless : d * m < 2 * (n % d * m) ↔ d < 2 * (n % d) := by
    rw [← Nat.mul_assoc, Nat.mul_lt_mul_right hm]
  have hequal : 2 * (n % d * m) = d * m ↔ 2 * (n % d) = d := by
    rw [← Nat.mul_assoc, Nat.mul_left_inj hm.ne']
  rw [halfEven, halfEven, Nat.mul_mod_mul_right, Nat.mul_div_mul_right _ _ hm]
  simp only [hless, hequal]

/-- A rounded number of grains is off by a small part of it. -/
theorem RoundsTo.near (h : RoundsTo c r) : limit * |(r : Int) - c| ≤ 5 * r := by
  obtain ⟨k, _, hf, rfl⟩ := h
  obtain ⟨hlo, hhi⟩ := @halfEven_bounds c (tenTo k) (Digits.tenTo_pos k)
  rw [← drop] at hlo hhi
  push_cast
  cases k with
  | zero =>
    rw [drop_zero, Digits.tenTo_zero, Nat.cast_one, Int.mul_one, Int.sub_self, abs_zero,
      Int.mul_zero]
    omega
  | succ j =>
    have hlong := le_drop_of_lt hf (Nat.lt_succ_self j)
    rw [Nat.add_sub_cancel_left] at hlong
    have hstep : (limit : Int) * tenTo (j + 1) ≤ drop c (j + 1) * 10 * tenTo (j + 1) :=
      Int.mul_le_mul_of_nonneg_right (by exact_mod_cast hlong) (Int.natCast_nonneg _)
    have habs : 2 * |(drop c (j + 1) : Int) * tenTo (j + 1) - c| ≤ tenTo (j + 1) := by
      rw [← abs_of_nonneg (by decide : (0 : Int) ≤ 2), ← abs_mul, abs_le]
      constructor <;> linarith
    have hscaled := Int.mul_le_mul_of_nonneg_left habs (Int.natCast_nonneg limit)
    linarith

/-- What is short enough without the zeros at its end stays as it is. -/
theorem roundsTo_of_short (hc : c < limit) (he : e ≤ places) :
    RoundsTo (c * tenTo e) (c * tenTo e) := by
  have hshort : drop (c * tenTo e) e < limit := by
    rwa [drop_mul_tenTo c (Nat.le_refl e), Nat.sub_self, Digits.tenTo_zero, Nat.mul_one]
  obtain ⟨k, hk, hf⟩ := exists_fitted hshort
  refine ⟨k, Nat.le_trans hk he, hf, ?_⟩
  rw [drop_mul_tenTo c hk, Nat.mul_assoc, ← tenTo_add, Nat.sub_add_cancel hk]

/-- More places at the end have to go, if any have. -/
theorem Fitted.mul_tenTo (h : Fitted c (k + 1)) (e : Nat) :
    Fitted (c * tenTo e) (k + 1 + e) ∧ drop (c * tenTo e) (k + 1 + e) = drop c (k + 1) := by
  have hdrop : ∀ j, drop (c * tenTo e) (j + e) = drop c j := fun j => by
    rw [drop, tenTo_add, halfEven_mul_mul _ _ (Digits.tenTo_pos e), drop]
  refine ⟨⟨?_, fun j hj => ?_⟩, hdrop (k + 1)⟩
  · rw [hdrop]
    exact h.short
  · have hlimit : limit ≤ c := drop_zero c ▸ h.long 0 (Nat.succ_pos k)
    rcases Nat.le_total j e with hje | hej
    · rw [drop_mul_tenTo c hje]
      exact Nat.le_trans hlimit (Nat.le_mul_of_pos_right c (Digits.tenTo_pos _))
    · obtain ⟨i, rfl⟩ := Nat.exists_eq_add_of_le' hej
      rw [hdrop]
      exact h.long i (by omega)

/-- How a coefficient is fitted at its own places is how its grains are rounded. -/
theorem Fitted.roundsTo (h : Fitted c k) (hk : k ≤ s) (hs : s ≤ places) :
    RoundsTo (c * tenTo (places - s)) (drop c k * tenTo (k + (places - s))) := by
  cases k with
  | zero =>
    rw [drop_zero, Nat.zero_add]
    exact roundsTo_of_short (drop_zero c ▸ h.short) (Nat.sub_le places s)
  | succ k =>
    obtain ⟨hf, hdrop⟩ := h.mul_tenTo (places - s)
    exact ⟨_, by omega, hf, by rw [hdrop]⟩

theorem drop_lt_limit_iff : drop c k < limit ↔ 2 * c < (2 * limit - 1) * tenTo k := by
  have heven : ((limit : Nat) : Int) % 2 = 0 := by decide
  have hreach := @le_halfEven_iff_of_even c _ _ (Digits.tenTo_pos k) heven
  rw [← drop] at hreach
  unfold limit at hreach ⊢
  omega

/-- Grains can be rounded unless they are more than a decimal can have, by half a step or more. -/
theorem exists_roundsTo_iff : (∃ r, RoundsTo c r) ↔ 2 * c < (2 * limit - 1) * tenTo places := by
  constructor
  · rintro ⟨_, k, hk, hf, _⟩
    exact Nat.lt_of_lt_of_le (drop_lt_limit_iff.mp hf.short)
      (Nat.mul_le_mul_left _ (tenTo_le_of_le hk))
  · intro h
    obtain ⟨k, hk, hf⟩ := exists_fitted (drop_lt_limit_iff.mpr h)
    exact ⟨_, k, hk, hf, rfl⟩

end Rounding

section Grains

variable {a b x : Decimal} {s : Nat}

theorem grains_eq (hs : b.scale ≤ s) (hp : s ≤ places) :
    b.grains = b.mantissaAt s * tenTo (places - s) := by
  rw [grains, mantissaAt, mantissaAt, Int.mul_assoc, ← Int.natCast_mul, ← tenTo_add,
    Nat.add_comm, Nat.sub_add_sub_cancel hp hs]

theorem value_eq_grains (d : Decimal) : d.value = d.grains / tenTo places := by
  have hscale : (tenTo d.scale : Rat) ≠ 0 := by exact_mod_cast (Digits.tenTo_pos d.scale).ne'
  have hplaces : (tenTo places : Rat) ≠ 0 := by exact_mod_cast (Digits.tenTo_pos places).ne'
  have hten : tenTo places = tenTo (places - d.scale) * tenTo d.scale := by
    rw [← tenTo_add, Nat.sub_add_cancel d.scale_le]
  rw [value, div_eq_div_iff hscale hplaces, grains, mantissaAt, hten]
  push_cast
  ring

/-- The exact distance of two decimals. -/
theorem abs_value_sub (a b : Decimal) : |a.value - b.value| = (apart a b : Rat) / tenTo places := by
  rw [value_eq_grains, value_eq_grains, ← sub_div, abs_div, apart, Nat.cast_natAbs]
  push_cast
  rw [abs_of_nonneg (Nat.cast_nonneg _ : (0 : Rat) ≤ tenTo places)]

theorem value_abs (d : Decimal) : d.abs.value = d.coefficient / tenTo d.scale := rfl

theorem natAbs_grains (d : Decimal) :
    d.grains.natAbs = d.coefficient * tenTo (places - d.scale) := by
  rw [grains, mantissaAt, Int.natAbs_mul, natAbs_mantissa, Int.natAbs_natCast]

theorem grains_of_isZero (h : a.isZero) : a.grains = 0 := by
  rw [← Int.natAbs_eq_zero, natAbs_grains, beq_iff_eq.mp h, Nat.zero_mul]

/-- The grains of a coefficient that has lost some digits. -/
theorem div_tenTo_eq (c : Nat) {k : Nat} (hk : k ≤ s) (hs : s ≤ places) :
    (c : Rat) / tenTo (s - k) = (c * tenTo (k + (places - s)) : Nat) / tenTo places := by
  have hkept : (tenTo (s - k) : Rat) ≠ 0 := by exact_mod_cast (Digits.tenTo_pos _).ne'
  have hplaces : (tenTo places : Rat) ≠ 0 := by exact_mod_cast (Digits.tenTo_pos places).ne'
  have hten : tenTo places = tenTo (k + (places - s)) * tenTo (s - k) := by
    rw [← tenTo_add]
    congr 1
    omega
  rw [div_eq_div_iff hkept hplaces, hten]
  push_cast
  ring

/-- A decimal is its own rounding. -/
theorem roundsTo_grains (d : Decimal) :
    RoundsTo d.grains.natAbs d.grains.natAbs ∧
      d.abs.value = (d.grains.natAbs : Rat) / tenTo places := by
  rw [natAbs_grains]
  refine ⟨roundsTo_of_short d.coefficient_lt (Nat.sub_le places d.scale), ?_⟩
  have h := div_tenTo_eq d.coefficient (Nat.zero_le d.scale) d.scale_le
  rwa [Nat.zero_add] at h

theorem fitAt_eq_some {negative : Bool} {c bound : Nat} (h : fitAt negative c s bound = some x) :
    ∃ t ≤ bound, drop c (s - t) < limit := by
  induction bound with
  | zero =>
    obtain ⟨hb, _⟩ := Option.dite_none_right_eq_some.mp h
    exact ⟨0, Nat.le_refl 0, hb.1⟩
  | succ t ih =>
    by_cases ht : drop c (s - (t + 1)) < limit
    · exact ⟨t + 1, Nat.le_refl _, ht⟩
    · rw [fitAt, build?, dif_neg fun hb => ht hb.1] at h
      obtain ⟨u, hu, hshort⟩ := ih h
      exact ⟨u, Nat.le_succ_of_le hu, hshort⟩

theorem fit_eq_some {negative : Bool} {c : Nat} (hs : s ≤ places) (h : fit negative c s = some x) :
    ∃ k ≤ s, Fitted c k ∧ x.coefficient = drop c k ∧ x.scale = s - k := by
  obtain ⟨t, _, ht⟩ := fitAt_eq_some h
  obtain ⟨k, hk, hf⟩ := exists_fitted ht
  have hks : k ≤ s := Nat.le_trans hk (Nat.sub_le s t)
  rw [fit_of_fitted negative hf hks hs] at h
  obtain rfl := Option.some.inj h
  exact ⟨k, hks, hf, rfl, rfl⟩

end Grains

section Difference

variable {a b x : Decimal}

theorem apart_eq (a b : Decimal) : apart a b =
    (a.mantissaAt (max a.scale b.scale) - b.mantissaAt (max a.scale b.scale)).natAbs *
      tenTo (places - max a.scale b.scale) := by
  have hp : max a.scale b.scale ≤ places := Nat.max_le.mpr ⟨a.scale_le, b.scale_le⟩
  rw [apart, grains_eq (Nat.le_max_left _ _) hp, grains_eq (Nat.le_max_right _ _) hp,
    ← Int.sub_mul, Int.natAbs_mul, Int.natAbs_natCast]

/-- The distance that a difference carries is the exact one, rounded. -/
theorem roundsTo_of_sub (h : a.sub b = some x) :
    ∃ r, RoundsTo (apart a b) r ∧ x.abs.value = (r : Rat) / tenTo places := by
  have hp : max a.scale b.scale ≤ places := Nat.max_le.mpr ⟨a.scale_le, b.scale_le⟩
  rw [sub] at h
  split at h
  · next ha =>
    obtain rfl := Option.some.inj h
    rw [apart, grains_of_isZero ha, Int.zero_sub, Int.natAbs_neg]
    exact ⟨_, roundsTo_grains b⟩
  · split at h
    · next hb =>
      obtain rfl := Option.some.inj h
      rw [apart, grains_of_isZero hb, Int.sub_zero]
      exact ⟨_, roundsTo_grains a⟩
    · obtain ⟨k, hk, hf, hc, hs⟩ := fit_eq_some hp h
      rw [apart_eq]
      refine ⟨_, hf.roundsTo hk hp, ?_⟩
      rw [value_abs, hc, hs]
      exact div_tenTo_eq _ hk hp

theorem isSome_sub_of_roundsTo {r : Nat} (h : RoundsTo (apart a b) r) : (a.sub b).isSome := by
  have hp : max a.scale b.scale ≤ places := Nat.max_le.mpr ⟨a.scale_le, b.scale_le⟩
  have hlt := exists_roundsTo_iff.mp ⟨r, h⟩
  rw [sub]
  split
  · rfl
  · split
    · rfl
    · dsimp only
      rw [fitMantissa]
      rw [apart_eq] at hlt
      generalize a.mantissaAt (max a.scale b.scale) - b.mantissaAt (max a.scale b.scale) = m
        at hlt ⊢
      generalize max a.scale b.scale = s at hp hlt ⊢
      have hten : tenTo places = tenTo s * tenTo (places - s) := by
        rw [← tenTo_add, Nat.add_sub_cancel' hp]
      have hshort : drop m.natAbs s < limit := by
        rw [hten, ← Nat.mul_assoc, ← Nat.mul_assoc] at hlt
        exact drop_lt_limit_iff.mpr (Nat.lt_of_mul_lt_mul_right hlt)
      obtain ⟨k, hk, hf⟩ := exists_fitted hshort
      rw [fit_of_fitted _ hf hk hp]
      rfl

/-- There is a difference if and only if the exact one is less than the greatest decimal and half
a step more. -/
theorem isSome_sub_iff : (a.sub b).isSome ↔ |a.value - b.value| < limit - 1 / 2 := by
  have hpos : (0 : Rat) < tenTo places := by exact_mod_cast Digits.tenTo_pos places
  have hround : (a.sub b).isSome ↔ ∃ r, RoundsTo (apart a b) r := by
    refine ⟨fun h => ?_, fun ⟨r, hr⟩ => isSome_sub_of_roundsTo hr⟩
    obtain ⟨x, hx⟩ := Option.isSome_iff_exists.mp h
    obtain ⟨r, hr, _⟩ := roundsTo_of_sub hx
    exact ⟨r, hr⟩
  rw [hround, exists_roundsTo_iff, abs_value_sub, div_lt_iff₀ hpos, ← Nat.cast_lt (α := Rat)]
  unfold limit
  push_cast
  constructor <;> intro h <;> linarith

/-- The smaller of two distances is not carried as the greater one. -/
theorem abs_sub_le {a' b' x' : Decimal} (h : a.sub b = some x) (h' : a'.sub b' = some x')
    (hle : |a.value - b.value| ≤ |a'.value - b'.value|) : x.abs.value ≤ x'.abs.value := by
  have hpos : (0 : Rat) < tenTo places := by exact_mod_cast Digits.tenTo_pos places
  obtain ⟨r, hr, hx⟩ := roundsTo_of_sub h
  obtain ⟨r', hr', hx'⟩ := roundsTo_of_sub h'
  rw [abs_value_sub, abs_value_sub, div_le_div_iff_of_pos_right hpos] at hle
  rw [hx, hx', div_le_div_iff_of_pos_right hpos]
  exact_mod_cast hr.le hr' (by exact_mod_cast hle)

/-- A distance that is carried is off by a small part of it. -/
theorem abs_sub_near (h : a.sub b = some x) :
    limit * |x.abs.value - (|a.value - b.value|)| ≤ 5 * x.abs.value := by
  have hpos : (0 : Rat) < tenTo places := by exact_mod_cast Digits.tenTo_pos places
  obtain ⟨r, hr, hx⟩ := roundsTo_of_sub h
  have hnear : (limit : Rat) * |(r : Rat) - apart a b| ≤ 5 * r := by exact_mod_cast hr.near
  rw [hx, abs_value_sub, ← sub_div, abs_div, abs_of_pos hpos, ← mul_div_assoc, ← mul_div_assoc,
    div_le_div_iff_of_pos_right hpos]
  exact hnear

end Difference

end DemandResponse.Decimal
