import DemandResponse.Proofs.Distributor.Fairness
import Mathlib.Data.List.Forall2

/-!
# Responses rise with the imbalance

A greater imbalance never lowers what anybody is asked for. Towards either side the fraction grows
with the distance from zero, up to the whole band, and the two sides meet at zero, where nobody is
asked for anything. No rounding turns this round.
-/

namespace DemandResponse

namespace Apportionment

variable {first second : Power} {bands : List Band} {band : Band}

/-- Only the sign of an imbalance decides what bands can do against it. -/
theorem capacity_congr (h : 0 < first ↔ 0 < second) (bands : List Band) :
    capacity first bands = capacity second bands := by
  induction bands with
  | nil => rfl
  | cons band rest ih => simp only [capacity, capable, h, ih]

theorem bound_congr (h : 0 < first ↔ 0 < second) (band : Band) :
    bound first band = bound second band := by
  simp only [bound, h]

theorem bound_nonneg (hvalid : band.Valid) (h : 0 < first) : 0 ≤ bound first band := by
  rw [bound, if_pos h]
  exact Int64.le_iff_toInt_le.mp hvalid.nonneg.2

theorem bound_nonpos (hvalid : band.Valid) (h : ¬ 0 < first) : bound first band ≤ 0 := by
  have hdown : 0 ≤ band.down.toInt := Int64.le_iff_toInt_le.mp hvalid.nonneg.1
  rw [bound, if_neg h]
  omega

/-- A greater imbalance asks for more units of every band, towards its own side. -/
theorem units_le_units (hvalid : band.Valid) (hle : first ≤ second) (bands : List Band) :
    units first (capacity first bands) band ≤ units second (capacity second bands) band := by
  have hint : first.toInt ≤ second.toInt := Int64.le_iff_toInt_le.mp hle
  have hpos : ∀ p : Power, 0 < p ↔ 0 < p.toInt := fun p => Int64.lt_iff_toInt_lt
  by_cases hup : 0 < first
  · have hup' : 0 < second := Int64.lt_of_lt_of_le hup hle
    have hfar : first.toInt.natAbs ≤ second.toInt.natAbs := by
      rw [hpos] at hup
      omega
    rw [units, units, capacity_congr (iff_of_true hup hup'), bound_congr (iff_of_true hup hup')]
    apply Int.mul_le_mul_of_nonneg_right
    · exact_mod_cast parts_le_parts hfar _
    · exact bound_nonneg hvalid hup'
  by_cases hup' : 0 < second
  · -- the imbalances push to different sides, and neither pushes beyond zero
    apply Int.le_trans
    · exact Int.mul_nonpos_of_nonneg_of_nonpos (Int.natCast_nonneg _) (bound_nonpos hvalid hup)
    · exact Int.mul_nonneg (Int.natCast_nonneg _) (bound_nonneg hvalid hup')
  · have hfar : second.toInt.natAbs ≤ first.toInt.natAbs := by
      rw [hpos] at hup'
      omega
    rw [units, units, capacity_congr (iff_of_false hup hup'),
      bound_congr (iff_of_false hup hup')]
    apply Int.mul_le_mul_of_nonpos_right
    · exact_mod_cast parts_le_parts hfar _
    · exact bound_nonpos hvalid hup'

end Apportionment

namespace Distributor

open Apportionment

variable {P Q σ τ : Type} [Participant P σ] [Participant Q τ]

omit [Participant P σ] in
theorem map_value_dues (d : Distributor P) (tick : Tick) (value : Band → Power) :
    (d.dues tick value).map (·.value) = d.bands.map value := by
  rw [dues, bands, List.map_map, List.map_map]
  rfl

/-- Over the same valid bands, in the same order, a greater imbalance hands everybody as much or
more, whichever way the two imbalances push. -/
theorem signal_rises (d : Distributor P) (e : Distributor Q) (tick later : Tick)
    (first second : Power) (hvalid : ∀ band ∈ d.bands, band.Valid) (hbands : e.bands = d.bands)
    (hfirst : capacity first d.bands ≤ 10 ^ 26) (hsecond : capacity second d.bands ≤ 10 ^ 26)
    (hle : first ≤ second) :
    ∃ value raised : Band → Power,
      d.signal tick first = (.ok (d.dues tick value), d.handed tick value) ∧
      e.signal later second = (.ok (e.dues later raised), e.handed later raised) ∧
      (∀ band ∈ d.bands, value band ≤ raised band) ∧
      List.Forall₂ (· ≤ ·) ((d.dues tick value).map (·.value))
        ((e.dues later raised).map (·.value)) := by
  obtain ⟨f, hf, hshares⟩ := share_comesTo hvalid hfirst
  obtain ⟨g, hg, hshares'⟩ := share_comesTo hvalid hsecond
  choose! value hshare hcomes using hshares
  choose! raised hshare' hcomes' using hshares'
  have hrises : ∀ band ∈ d.bands, value band ≤ raised band := by
    intro band hband
    rw [Int64.le_iff_toInt_le]
    apply (hcomes band hband).le (hcomes' band hband)
    exact units_le_units (hvalid band hband) hle d.bands
  refine ⟨value, raised, signal_of_share d tick hf hshare, ?_, hrises, ?_⟩
  · apply signal_of_share e later
    · rw [hbands, hg]
    · rw [hbands]
      exact hshare'
  · rw [map_value_dues, map_value_dues, hbands, List.forall₂_map_left_iff,
      List.forall₂_map_right_iff, List.forall₂_same]
    exact hrises

/-- From the least imbalance to a small one beyond zero, over the bands that reach farthest. -/
theorem signal_rises_farthest :
    (∀ band ∈ farthest.bands, band.Valid) ∧
      capacity Int64.minValue farthest.bands ≤ 10 ^ 26 ∧ capacity 5 farthest.bands ≤ 10 ^ 26 ∧
      Int64.minValue ≤ (5 : Power) ∧
      ∃ value raised : Band → Power,
        (farthest.signal 1 Int64.minValue).1 = .ok (farthest.dues 1 value) ∧
        (farthest.signal 2 5).1 = .ok (farthest.dues 2 raised) ∧
        ∀ band ∈ farthest.bands, value band ≤ raised band := by
  have hvalid : ∀ band ∈ farthest.bands, band.Valid := by decide
  obtain ⟨value, raised, hd, he, hrises, _⟩ :=
    signal_rises farthest farthest 1 2 Int64.minValue 5 hvalid rfl (by decide) (by decide)
      (by decide)
  exact ⟨hvalid, by decide, by decide, by decide, value, raised, congrArg Prod.fst hd,
    congrArg Prod.fst he, hrises⟩

end Distributor

end DemandResponse
