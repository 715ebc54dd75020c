import DemandResponse.Proofs.Apportionment.Fraction
import Mathlib.Tactic.FieldSimp
import Mathlib.Tactic.NormNum

/-!
# Shares and the nearest integer

Every participant is handed the integer nearest to its `carriedShare`, halves going up. That is
the integer nearest to its exact share unless a half lies between the two, which are never more
than 10^-8 apart. A split into sixths already has such a half.
-/

namespace DemandResponse.Apportionment

open Decimal

variable {imbalance : Power} {total : Int} {band : Band}

/-- The part of its limit that a band is asked for, exactly. -/
theorem min_one_mul {r c : Nat} (hc : 0 < c) : min 1 ((r : Rat) / c) * c = (min r c : Nat) := by
  have hc' : (0 : Rat) < c := by exact_mod_cast hc
  rcases Nat.le_total r c with h | h
  · have hle : (r : Rat) / c ≤ 1 := (div_le_one hc').mpr (by exact_mod_cast h)
    rw [min_eq_right hle, Nat.min_eq_left h, div_mul_cancel₀ _ hc'.ne']
  · have hle : 1 ≤ (r : Rat) / c := (one_le_div hc').mpr (by exact_mod_cast h)
    rw [min_eq_left hle, Nat.min_eq_right h, one_mul]

theorem parts_near (imbalance : Power) (h : 0 ≤ total) :
    |(parts imbalance total : Rat) / 10 ^ 28 - min 1 ((imbalance.toInt.natAbs : Rat) / total)| ≤
      1 / (2 * 10 ^ 28) := by
  obtain ⟨c, rfl⟩ := Int.eq_ofNat_of_zero_le h
  rcases Nat.eq_zero_or_pos c with rfl | hc
  · have hparts : parts imbalance ((0 : Nat) : Int) = 0 := by
      unfold parts
      rw [Int.toNat_natCast, Nat.min_zero, Nat.zero_mul]
      rfl
    rw [hparts]
    norm_num
  · have hc' : (0 : Rat) < c := by exact_mod_cast hc
    obtain ⟨hup, hlo⟩ := @halfEven_bounds (min imbalance.toInt.natAbs c * 10 ^ 28) c hc
    have hup' : 2 * ((parts imbalance c : Rat) * c) ≤
        2 * ((min imbalance.toInt.natAbs c : Nat) * 10 ^ 28) + c := by
      exact_mod_cast hup
    have hlo' : 2 * (((min imbalance.toInt.natAbs c : Nat) : Rat) * 10 ^ 28) ≤
        2 * ((parts imbalance c : Rat) * c) + c := by
      exact_mod_cast hlo
    rw [← min_one_mul hc] at hup' hlo'
    rw [Int.cast_natCast]
    generalize min 1 ((imbalance.toInt.natAbs : Rat) / c) = e at hup' hlo'
    have hup'' : 2 * (parts imbalance c : Rat) ≤ 2 * (e * 10 ^ 28) + 1 :=
      le_of_mul_le_mul_right (by linarith) hc'
    have hlo'' : 2 * (e * 10 ^ 28) ≤ 2 * (parts imbalance c : Rat) + 1 :=
      le_of_mul_le_mul_right (by linarith) hc'
    rw [abs_le]
    constructor <;> linarith

theorem abs_bound_le (imbalance : Power) (band : Band) :
    |(bound imbalance band : Rat)| ≤ 2 ^ 63 := by
  have hup := Int64.toInt_lt band.up
  have hup' := Int64.le_toInt band.up
  have hdown := Int64.toInt_lt band.down
  have hdown' := Int64.le_toInt band.down
  have h : |bound imbalance band| ≤ 2 ^ 63 := by
    unfold bound
    rw [abs_le]
    split <;> omega
  exact_mod_cast h

/-- All roundings before the last one together do not move a share by more than 10^-8. -/
theorem carriedShare_near (h : 0 ≤ total) {k : Nat} (hk : k ≤ 19) :
    |carriedShare (units imbalance total band) k - exactShare imbalance total band| ≤
      1 / 10 ^ 8 := by
  have hpart := mul_le_mul (parts_near imbalance h) (abs_bound_le imbalance band)
    (abs_nonneg _) (by norm_num)
  rw [← abs_mul] at hpart
  have hpos := margin_pos (units imbalance total band) k
  have hlt := margin_lt (units imbalance total band) hk
  have hpos' : (0 : Rat) < margin (units imbalance total band) k := by exact_mod_cast hpos
  have hlt' : (margin (units imbalance total band) k : Rat) < 11 * 10 ^ 19 := by
    exact_mod_cast hlt
  have hunits : (units imbalance total band : Rat) =
      parts imbalance total * bound imbalance band := by
    rw [units]
    push_cast
    rfl
  unfold carriedShare exactShare
  generalize margin (units imbalance total band) k = g at hpos' hlt'
  generalize min 1 ((imbalance.toInt.natAbs : Rat) / total) = e at hpart
  rw [hunits]
  rw [abs_le] at hpart ⊢
  obtain ⟨h₁, h₂⟩ := hpart
  constructor <;> linarith

/-- Thresholds for every integer are a floor. -/
theorem eq_floor_of_threshold {U v : Int} {k : Nat}
    (h : ∀ n : Int, n ≤ v ↔ (2 * n - 1) * 10 ^ 28 ≤ 2 * U + margin U k) :
    v = ⌊carriedShare U k + 1 / 2⌋ := by
  refine eq_of_forall_le_iff fun n => ?_
  have hcast : ((2 * n - 1) * 10 ^ 28 ≤ 2 * U + margin U k) ↔
      (2 * (n : Rat) - 1) * 10 ^ 28 ≤ 2 * U + margin U k := by
    exact_mod_cast Iff.rfl
  have hshare : carriedShare U k * (2 * 10 ^ 28) = 2 * U + margin U k :=
    div_mul_cancel₀ _ (by norm_num)
  rw [h, hcast, Int.le_floor]
  constructor <;> intro hn <;> linarith

/-- Two numbers have the same nearest integer if and only if no half lies between them. -/
theorem floor_half_eq_iff (x y : Rat) :
    ⌊y + 1 / 2⌋ = ⌊x + 1 / 2⌋ ↔ ∀ n : Int, (n : Rat) + 1 / 2 ≤ x ↔ (n : Rat) + 1 / 2 ≤ y := by
  have hle : ∀ (z : Rat) (n : Int), n + 1 ≤ ⌊z + 1 / 2⌋ ↔ (n : Rat) + 1 / 2 ≤ z := by
    intro z n
    rw [Int.le_floor]
    push_cast
    constructor <;> intro h <;> linarith
  constructor
  · intro h n
    rw [← hle, ← hle, h]
  · intro h
    refine eq_of_forall_le_iff fun n => ?_
    have hn := h (n - 1)
    rw [← hle, ← hle, Int.sub_add_cancel] at hn
    exact hn.symm

end DemandResponse.Apportionment
