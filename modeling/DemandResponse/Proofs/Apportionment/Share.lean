import DemandResponse.Apportionment
import DemandResponse.Proofs.Decimal.Half
import Mathlib.Tactic.Linarith
import Mathlib.Tactic.LinearCombination

/-!
# What a share comes to

A share is given by three roundings: of the quotient to 28 places, of its product with a limit to
the places that the product allows, and of the sum with one half, which may cost one place more.
All three together are one floor of an exact number, `carriedShare`. It is the product of the
rounded quotient and the limit, raised by the `margin` within which a half is still reached.
-/

namespace DemandResponse.Apportionment

open Decimal
open Digits (tenTo)

/-- The limit of a band towards which an imbalance pushes, under its sign. -/
def bound (imbalance : Power) (band : Band) : Int :=
  if 0 < imbalance then band.up.toInt else -band.down.toInt

/-- The share that a band would have in exact arithmetic. -/
def exactShare (imbalance : Power) (total : Int) (band : Band) : Rat :=
  min 1 ((imbalance.toInt.natAbs : Rat) / total) * bound imbalance band

/-- The fraction of every band, as a number of units of the 28th place. -/
def parts (imbalance : Power) (total : Int) : Nat :=
  halfEven (min imbalance.toInt.natAbs total.toNat * 10 ^ 28) total.toNat

/-- The product of the fraction and the limit of a band, in the same units. -/
def units (imbalance : Power) (total : Int) (band : Band) : Int :=
  parts imbalance total * bound imbalance band

/-- How much is gained by rounding a product and its sum with one half, in halves of a unit: one
unit of the last place of the product, and almost ten more if the sum loses another place. -/
def margin (units : Int) (dropped : Nat) : Int :=
  if 0 < units ∧ limit ≤ drop units.natAbs dropped + 5 * tenTo (27 - dropped) then
    11 * tenTo dropped - 1
  else tenTo dropped

/-- The share as it stands before the floor is taken, without the half. -/
def carriedShare (units : Int) (dropped : Nat) : Rat :=
  (2 * units + margin units dropped) / (2 * 10 ^ 28)

section Thresholds

variable {N k : Nat}

theorem tenTo_mul_tenTo (hk : k ≤ 19) : (tenTo (27 - k) : Int) * tenTo k = 10 ^ 27 := by
  have h := tenTo_add (27 - k) k
  rw [Nat.sub_add_cancel (by omega)] at h
  exact_mod_cast h.symm

/-- A half of the last places of a product is an even number of them. -/
theorem even_half (hk : k ≤ 19) (m : Int) : m * (5 * tenTo (27 - k)) % 2 = 0 := by
  obtain ⟨t, ht⟩ : ∃ t, 27 - k = t + 1 := ⟨26 - k, by omega⟩
  rw [ht, ← Int.mul_assoc]
  exact even_mul_tenTo _ t

/-- The floor of a product and one half, when the product is positive. -/
theorem le_drop_add_half_iff (hk : k ≤ 19) (n : Int) :
    n * (10 * tenTo (27 - k)) ≤ drop N k + 5 * tenTo (27 - k) ↔
      (2 * n - 1) * 10 ^ 28 ≤ 2 * N + tenTo k := by
  have h := @le_halfEven_iff_of_even N _ _ (Digits.tenTo_pos k) (even_half hk (2 * n - 1))
  have hgrid : 2 * ((2 * n - 1) * (5 * tenTo (27 - k)) * tenTo k) = (2 * n - 1) * 10 ^ 28 := by
    linear_combination (10 * (2 * n - 1)) * tenTo_mul_tenTo hk
  rw [hgrid] at h
  rw [← h, drop]
  constructor <;> intro hn <;> linarith

/-- The floor of a negative product and one half. -/
theorem le_neg_drop_add_half_iff (hk : k ≤ 19) (n : Int) :
    n * (10 * tenTo (27 - k)) ≤ -drop N k + 5 * tenTo (27 - k) ↔
      (2 * n - 1) * 10 ^ 28 ≤ -(2 * N) + tenTo k := by
  have h := @halfEven_le_iff_of_even N _ _ (Digits.tenTo_pos k) (even_half hk (1 - 2 * n))
  have hgrid : 2 * ((1 - 2 * n) * (5 * tenTo (27 - k)) * tenTo k) = (1 - 2 * n) * 10 ^ 28 := by
    linear_combination (10 * (1 - 2 * n)) * tenTo_mul_tenTo hk
  rw [hgrid] at h
  rw [drop]
  constructor
  · intro hn
    have := h.mp (by linarith)
    linarith
  · intro hn
    have := h.mpr (by linarith)
    linarith

/-- The floor of a product and one half whose sum loses a place. -/
theorem le_drop_add_half_iff_of_carry (hk : k ≤ 19) (n : Int) :
    n * (10 * tenTo (27 - k)) ≤ drop N k + 5 * tenTo (27 - k) + 5 ↔
      (2 * n - 1) * 10 ^ 28 ≤ 2 * N + (11 * tenTo k - 1) := by
  have hodd : ((2 * n - 1) * (5 * tenTo (27 - k)) - 5) % 2 = 1 := by
    have := even_half hk (2 * n - 1)
    omega
  have h := @le_halfEven_iff_of_odd N _ _ (Digits.tenTo_pos k) hodd
  have hgrid : 2 * (((2 * n - 1) * (5 * tenTo (27 - k)) - 5) * tenTo k) =
      (2 * n - 1) * 10 ^ 28 - 10 * tenTo k := by
    linear_combination (10 * (2 * n - 1)) * tenTo_mul_tenTo hk
  rw [hgrid] at h
  rw [drop]
  constructor
  · intro hn
    have := h.mp (by linarith)
    omega
  · intro hn
    have := h.mpr (by omega)
    linarith

end Thresholds

section Steps

variable {U : Int} {k : Nat}

/-- A product that was rounded to the places it allows, raised by one half. -/
theorem add_half_of_fitted (hf : Fitted U.natAbs k) (hk : k ≤ 19) (hU : U ≠ 0) {x : Decimal}
    (hsign : x.negative = decide (U < 0)) (hc : x.coefficient = drop U.natAbs k)
    (hs : x.scale = 28 - k) :
    ∃ y, x.add half = some y ∧
      ∀ n : Int, n ≤ y.floor ↔ (2 * n - 1) * 10 ^ 28 ≤ 2 * U + margin U k := by
  have hdrop : 0 < drop U.natAbs k := hf.drop_pos (Int.natAbs_pos.mpr hU)
  have hx : x.isZero = false := by
    rw [isZero, hc]
    exact beq_false_of_ne (Nat.ne_of_gt hdrop)
  have hscale : x.scale = 27 - k + 1 := by omega
  rcases Int.lt_or_gt_of_ne hU with hneg | hpos
  -- below zero the half shortens the sum, so only a positive product can carry
  · have hmantissa : x.mantissa = -drop U.natAbs k := by
      rw [mantissa, hsign, decide_eq_true hneg, if_pos rfl, hc]
    have hten : tenTo (27 - k) ≤ tenTo 27 := tenTo_le_of_le (Nat.sub_le 27 k)
    have hshort : (x.mantissa + 5 * tenTo (27 - k)).natAbs < limit := by
      have := hf.short
      rw [show tenTo 27 = 1000000000000000000000000000 from rfl] at hten
      rw [hmantissa]
      unfold limit at this ⊢
      omega
    obtain ⟨y, hy, hfloor⟩ := add_half_of_short hx hscale hshort
    refine ⟨y, hy, fun n => ?_⟩
    rw [hfloor, hmantissa, le_neg_drop_add_half_iff hk, margin, if_neg (by omega)]
    omega
  · have hmantissa : x.mantissa = drop U.natAbs k := by
      rw [mantissa, hsign, decide_eq_false (by omega), if_neg Bool.false_ne_true, hc]
    by_cases hcarry : limit ≤ drop U.natAbs k + 5 * tenTo (27 - k)
    · have hlong : limit ≤ (x.mantissa + 5 * tenTo (26 - k + 1)).natAbs := by
        rw [hmantissa, show 26 - k + 1 = 27 - k by omega]
        omega
      obtain ⟨y, hy, hfloor⟩ := add_half_of_long hx (by omega) (by omega) hlong
      refine ⟨y, hy, fun n => ?_⟩
      rw [hfloor, hmantissa, show 26 - k + 1 = 27 - k by omega,
        le_drop_add_half_iff_of_carry hk, margin, if_pos ⟨hpos, hcarry⟩]
      omega
    · have hshort : (x.mantissa + 5 * tenTo (27 - k)).natAbs < limit := by
        rw [hmantissa]
        omega
      obtain ⟨y, hy, hfloor⟩ := add_half_of_short hx hscale hshort
      refine ⟨y, hy, fun n => ?_⟩
      rw [hfloor, hmantissa, le_drop_add_half_iff hk, margin,
        if_neg fun h => hcarry h.2]
      omega

/-- A product with a power value, when it is fitted without vanishing. -/
theorem mul_ofInt64 {f x : Decimal} {p : Power} (hsign : f.negative = false)
    (hne : f.coefficient * p.toInt.natAbs ≠ 0)
    (hfit : fit (decide (p.toInt < 0)) (f.coefficient * p.toInt.natAbs) f.scale = some x)
    (hx : x.coefficient ≠ 0) : f.mul (ofInt64 p) = some x := by
  have hf : f.isZero = false := beq_false_of_ne (Nat.ne_zero_of_mul_ne_zero_left hne)
  have hp : (ofInt64 p).isZero = false := beq_false_of_ne (Nat.ne_zero_of_mul_ne_zero_right hne)
  have hclear : x.clearZero = x := by
    rw [clearZero, isZero, beq_false_of_ne hx, Bool.not_false, Bool.and_true]
  have hplaces : ¬ places + 19 < f.scale + 0 := by
    have := f.scale_le
    omega
  rw [mul, hf, hp, if_neg (by decide), hsign, Bool.false_bne]
  change (if _ then if places + 19 < f.scale + 0 then some 0
    else (fit (decide (p.toInt < 0)) (f.coefficient * p.toInt.natAbs) f.scale).map clearZero
    else fit (decide (p.toInt < 0)) (f.coefficient * p.toInt.natAbs) f.scale) = some x
  rw [hfit, if_neg hplaces, Option.map_some, hclear, ite_self]

theorem tenTo_le_margin (U : Int) (k : Nat) : (tenTo k : Int) ≤ margin U k := by
  have hpos := Digits.tenTo_pos k
  unfold margin
  split <;> omega

theorem margin_lt_mul (U : Int) (k : Nat) : margin U k < 11 * tenTo k := by
  have hpos := Digits.tenTo_pos k
  unfold margin
  split <;> omega

theorem margin_pos (U : Int) (k : Nat) : 0 < margin U k := by
  have hpos := Digits.tenTo_pos k
  have hle := tenTo_le_margin U k
  omega

theorem margin_lt (U : Int) (hk : k ≤ 19) : margin U k < 11 * 10 ^ 19 := by
  have hten : tenTo k ≤ 10 ^ 19 := tenTo_le_of_le hk
  have hlt := margin_lt_mul U k
  omega

/-- No more than 19 digits of a product have to go. -/
theorem exists_fitted_product {q : Nat} (hq : q ≤ 10 ^ 28) (p : Power) :
    ∃ k ≤ 19, Fitted (q * p.toInt.natAbs) k := by
  apply exists_fitted
  have hlo := Int64.le_toInt p
  have hhi := Int64.toInt_lt p
  have hmul : q * p.toInt.natAbs ≤ 10 ^ 28 * 2 ^ 63 := Nat.mul_le_mul hq (by omega)
  refine Nat.lt_of_le_of_lt (halfEven_le_succ _ _) ?_
  rw [show tenTo 19 = 10 ^ 19 from rfl]
  unfold limit
  omega

end Steps

theorem signedLimit_eq {band : Band} (imbalance : Power) (hdown : 0 ≤ band.down) :
    ∃ p, signedLimit imbalance band = .ok p ∧ p.toInt = bound imbalance band := by
  unfold signedLimit bound
  by_cases hI : 0 < imbalance
  · rw [if_pos hI, if_pos hI]
    exact ⟨band.up, rfl, rfl⟩
  · have hlo : 0 ≤ band.down.toInt := Int64.le_iff_toInt_le.mp hdown
    have hhi := Int64.toInt_lt band.down
    have hrange : Power.InRange (-band.down.toInt) := by
      unfold Power.InRange Power.least Power.greatest
      omega
    have hp : Power.ofInt? (-band.down.toInt) = some (Power.clamp (-band.down.toInt)) :=
      Power.ofInt?_eq_some_iff.mpr (Power.toInt_clamp hrange)
    rw [if_neg hI, if_neg hI, Power.negate, hp]
    exact ⟨_, rfl, Power.toInt_clamp hrange⟩

section Share

variable {imbalance : Power} {total : Int} {band : Band} {f : Decimal}

/-- The steps of a share from its limit to its last decimal, whose floor is a power value. -/
def Converts (f : Decimal) (imbalance : Power) (band : Band) (value : Power) : Prop :=
  ∃ p x y, signedLimit imbalance band = .ok p ∧ f.mul (ofInt64 p) = some x ∧
    x.add half = some y ∧ Power.ofInt? y.floor = some value

theorem share_of_converts {value : Power} (hI : imbalance ≠ 0)
    (h : Converts f imbalance band value) : share f imbalance band = .ok value := by
  obtain ⟨p, x, y, hp, hmul, hadd, hvalue⟩ := h
  rw [share, if_neg hI, hp]
  change (Fault.decimalProductOverflow.ifNone (f.mul (ofInt64 p)) >>= _) = _
  rw [hmul]
  change (Fault.decimalSumOverflow.ifNone (x.add half) >>= _) = _
  rw [hadd]
  change Except.ok (settle y) = _
  rw [settle, hvalue]
  rfl

/-- A decimal in the place of the fraction that an imbalance asks for. -/
inductive StandsFor (imbalance : Power) (total : Int) (f : Decimal) : Prop where
  /-- Nobody can do anything. -/
  | nothing (hc : f.coefficient = 0) (hparts : parts imbalance total = 0)
  /-- The rounded quotient. -/
  | part (hsign : f.negative = false) (hc : f.coefficient = parts imbalance total)
      (hs : f.scale = 28)
  /-- Everybody is asked for all. -/
  | whole (hsign : f.negative = false) (hc : f.coefficient = tenTo f.scale)
      (hparts : parts imbalance total = 10 ^ 28)

/-- What the floor after the last step has to be for a number of units. -/
def Settles (U : Int) (k : Nat) (f : Decimal) (p : Power) : Prop :=
  ∃ x y, f.mul (ofInt64 p) = some x ∧ x.add half = some y ∧
    ∀ n : Int, n ≤ y.floor ↔ (2 * n - 1) * 10 ^ 28 ≤ 2 * U + margin U k

/-- A multiple of the whole is its own nearest integer, whatever is gained by rounding. -/
theorem le_iff_of_whole {m : Int} {k : Nat} (hk : k ≤ 19) (n : Int) :
    n ≤ m ↔ (2 * n - 1) * 10 ^ 28 ≤ 2 * (10 ^ 28 * m) + margin (10 ^ 28 * m) k := by
  have hpos := margin_pos (10 ^ 28 * m) k
  have hlt := margin_lt (10 ^ 28 * m) hk
  omega

theorem settles_nothing {p : Power} {k : Nat} (hk : k ≤ 19)
    (h : f.coefficient = 0 ∨ p.toInt = 0) : Settles 0 k f p := by
  have hzero : f.isZero ∨ (ofInt64 p).isZero := by
    rcases h with h | h
    · exact Or.inl (beq_iff_eq.mpr h)
    · exact Or.inr (beq_iff_eq.mpr (Int.natAbs_eq_zero.mpr h))
  refine ⟨0, half, if_pos hzero, add_half_of_isZero rfl, fun n => ?_⟩
  exact le_iff_of_whole hk n

theorem settles_part {p : Power} {k : Nat} (hsign : f.negative = false) (hs : f.scale = 28)
    (hk : k ≤ 19) (hne : (f.coefficient : Int) * p.toInt ≠ 0)
    (hf : Fitted ((f.coefficient : Int) * p.toInt).natAbs k) :
    Settles (f.coefficient * p.toInt) k f p := by
  have habs : ((f.coefficient : Int) * p.toInt).natAbs = f.coefficient * p.toInt.natAbs := by
    rw [Int.natAbs_mul, Int.natAbs_natCast]
  have hpos := hf.drop_pos (Int.natAbs_pos.mpr hne)
  have hc : 0 < (f.coefficient : Int) := by
    have := left_ne_zero_of_mul hne
    omega
  have hneg : decide (p.toInt < 0) = decide ((f.coefficient : Int) * p.toInt < 0) := by
    rw [decide_eq_decide, mul_neg_iff]
    constructor
    · intro h
      exact Or.inl ⟨hc, h⟩
    · rintro (h | h)
      · exact h.2
      · omega
  have hfit := fit_of_fitted (decide ((f.coefficient : Int) * p.toInt < 0)) hf
    (Nat.le_trans hk (by decide : 19 ≤ 28)) (Nat.le_refl 28)
  obtain ⟨y, hy, hfloor⟩ := @add_half_of_fitted _ k hf hk hne
    ⟨_, _, 28 - k, hf.short, Nat.sub_le 28 k⟩ rfl rfl rfl
  refine ⟨_, y, mul_ofInt64 hsign ?_ ?_ (Nat.ne_of_gt hpos), hy, hfloor⟩
  · rw [← habs]
    exact Int.natAbs_ne_zero.mpr hne
  · rw [← habs, hneg, hs]
    exact hfit

theorem settles_whole {p : Power} {k : Nat} (hsign : f.negative = false)
    (hc : f.coefficient = tenTo f.scale) (hk : k ≤ 19) (hp : p.toInt ≠ 0) :
    Settles (10 ^ 28 * p.toInt) k f p := by
  have hlo := Int64.le_toInt p
  have hhi := Int64.toInt_lt p
  have hshort : p.toInt.natAbs < limit := by
    unfold limit
    omega
  obtain ⟨j, x, hj, hx, hxs, hxc, hxt⟩ :=
    fit_mul_tenTo (decide (p.toInt < 0)) hshort (Nat.le_refl f.scale) f.scale_le
  have hten := Digits.tenTo_pos f.scale
  have hcoefficient : x.coefficient ≠ 0 := by
    rw [hxc]
    exact Nat.mul_ne_zero (Int.natAbs_ne_zero.mpr hp) (Nat.ne_of_gt (Digits.tenTo_pos _))
  have hmantissa : x.mantissa = p.toInt * tenTo x.scale := by
    rw [mantissa, hxs, hxc, hxt]
    by_cases hneg : p.toInt < 0
    · rw [if_pos (decide_eq_true hneg), Int.natCast_mul, Int.ofNat_natAbs_of_nonpos (by omega),
        Int.neg_mul, Int.neg_neg]
    · rw [if_neg (by simpa using hneg), Int.natCast_mul, Int.natAbs_of_nonneg (by omega)]
  obtain ⟨y, hy, hfloor⟩ :=
    add_half_of_whole hmantissa (beq_false_of_ne hcoefficient) (by omega)
  refine ⟨x, y, mul_ofInt64 hsign ?_ ?_ hcoefficient, hy, fun n => ?_⟩
  · rw [hc]
    exact Nat.mul_ne_zero (Nat.ne_of_gt hten) (Int.natAbs_ne_zero.mpr hp)
  · rw [hc, Nat.mul_comm]
    exact hx
  · rw [hfloor]
    exact le_iff_of_whole hk n

/-- A part of a limit lies between zero and the limit, and so does what is made of it. -/
theorem between_of_threshold {q k : Nat} {b v : Int} (hq : q ≤ 10 ^ 28) (hk : k ≤ 19)
    (h : ∀ n : Int, n ≤ v ↔ (2 * n - 1) * 10 ^ 28 ≤ 2 * (q * b) + margin (q * b) k) :
    min 0 b ≤ v ∧ v ≤ max 0 b := by
  have hpos := margin_pos (q * b) k
  have hlt := margin_lt (q * b) hk
  rcases Int.le_total 0 b with hb | hb
  · have hlo : 0 ≤ (q : Int) * b := Int.mul_nonneg (Int.natCast_nonneg q) hb
    have hhi : (q : Int) * b ≤ 10 ^ 28 * b :=
      Int.mul_le_mul_of_nonneg_right (by exact_mod_cast hq) hb
    have h₀ := (h 0).mpr (by omega)
    have h₁ := mt (h (b + 1)).mp (by omega)
    omega
  · have hhi : (q : Int) * b ≤ 0 :=
      Int.mul_nonpos_of_nonneg_of_nonpos (Int.natCast_nonneg q) hb
    have hlo : 10 ^ 28 * b ≤ (q : Int) * b :=
      Int.mul_le_mul_of_nonpos_right (by exact_mod_cast hq) hb
    have h₀ := (h b).mpr (by omega)
    have h₁ := mt (h 1).mp (by omega)
    omega

/-- The whole arithmetic of a share as one threshold for every integer. -/
theorem exists_converts (hdown : 0 ≤ band.down)
    (hparts : parts imbalance total ≤ 10 ^ 28) (hf : StandsFor imbalance total f) :
    ∃ k v, k ≤ 19 ∧ Fitted (units imbalance total band).natAbs k ∧
      Converts f imbalance band v ∧ ∀ n : Int, n ≤ v.toInt ↔
        (2 * n - 1) * 10 ^ 28 ≤
          2 * units imbalance total band + margin (units imbalance total band) k := by
  obtain ⟨p, hp, hbound⟩ := signedLimit_eq imbalance hdown
  obtain ⟨k, hk, hfitted⟩ : ∃ k ≤ 19, Fitted (units imbalance total band).natAbs k := by
    rw [units, ← hbound, Int.natAbs_mul, Int.natAbs_natCast]
    exact exists_fitted_product hparts p
  have hunits : units imbalance total band = parts imbalance total * p.toInt := by
    rw [units, hbound]
  obtain ⟨x, y, hmul, hadd, hfloor⟩ : Settles (units imbalance total band) k f p := by
    -- a product with zero is zero without places, whatever the fraction
    by_cases hp0 : p.toInt = 0
    · rw [hunits, hp0, Int.mul_zero]
      exact settles_nothing hk (Or.inr hp0)
    cases hf with
    | nothing hc hzero =>
      rw [hunits, hzero, Int.natCast_zero, Int.zero_mul]
      exact settles_nothing hk (Or.inl hc)
    | part hsign hc hs =>
      by_cases hc0 : f.coefficient = 0
      · rw [hunits, ← hc, hc0, Int.natCast_zero, Int.zero_mul]
        exact settles_nothing hk (Or.inl hc0)
      · rw [hunits, ← hc] at hfitted ⊢
        exact settles_part hsign hs hk (mul_ne_zero (Int.natCast_ne_zero.mpr hc0) hp0) hfitted
    | whole hsign hc hwhole =>
      rw [hunits, hwhole]
      exact settles_whole hsign hc hk hp0
  have hrange : Power.InRange y.floor := by
    have hbetween := between_of_threshold hparts hk (hunits ▸ hfloor)
    have hlo := Int64.le_toInt p
    have hhi := Int64.toInt_lt p
    unfold Power.InRange Power.least Power.greatest
    omega
  have hv := Power.toInt_clamp hrange
  refine ⟨k, Power.clamp y.floor, hk, hfitted,
    ⟨p, x, y, hp, hmul, hadd, Power.ofInt?_eq_some_iff.mpr hv⟩, fun n => ?_⟩
  rw [hv]
  exact hfloor n

theorem share_eq (hI : imbalance ≠ 0) (hdown : 0 ≤ band.down)
    (hparts : parts imbalance total ≤ 10 ^ 28) (hf : StandsFor imbalance total f) :
    ∃ k v, k ≤ 19 ∧ Fitted (units imbalance total band).natAbs k ∧
      share f imbalance band = .ok v ∧ ∀ n : Int, n ≤ v.toInt ↔
        (2 * n - 1) * 10 ^ 28 ≤
          2 * units imbalance total band + margin (units imbalance total band) k := by
  obtain ⟨k, v, hk, hfitted, hconverts, hfloor⟩ := exists_converts hdown hparts hf
  exact ⟨k, v, hk, hfitted, share_of_converts hI hconverts, hfloor⟩

end Share

end DemandResponse.Apportionment
