import DemandResponse.Distributor
import DemandResponse.Proofs.Apportionment.Nearest
import DemandResponse.Rehearsal.Recorder

/-!
# What a signal hands out

A signal over valid bands never faults and hands every participant one share. The share is meant
to be the exact one brought to the nearest integer, halves going up. It is so if and only if no
half lies between the exact share and the share as decimals carry it.
-/

namespace DemandResponse

namespace Band

/-- A band that was built by `Band.new`. -/
def Valid (band : Band) : Prop := ∃ down up, Band.new down up = .ok band

theorem Valid.nonneg {band : Band} (h : band.Valid) : 0 ≤ band.down ∧ 0 ≤ band.up := by
  obtain ⟨down, up, h⟩ := h
  unfold Band.new at h
  split at h
  · obtain rfl := Except.ok.inj h
    assumption
  · cases h

theorem valid_of_nonneg {band : Band} (hdown : 0 ≤ band.down) (hup : 0 ≤ band.up) : band.Valid :=
  ⟨band.down, band.up, if_pos ⟨hdown, hup⟩⟩

instance (band : Band) : Decidable band.Valid :=
  decidable_of_iff (0 ≤ band.down ∧ 0 ≤ band.up)
    ⟨fun h => valid_of_nonneg h.1 h.2, Valid.nonneg⟩

end Band

namespace Apportionment

variable {imbalance : Power} {bands : List Band}

theorem capable_nonneg (imbalance : Power) {band : Band} (h : band.Valid) :
    0 ≤ (capable imbalance band).toInt := by
  obtain ⟨hdown, hup⟩ := h.nonneg
  unfold capable
  split
  · exact Int64.le_iff_toInt_le.mp hup
  · exact Int64.le_iff_toInt_le.mp hdown

theorem capacity_nonneg (h : ∀ band ∈ bands, band.Valid) : 0 ≤ capacity imbalance bands := by
  induction bands with
  | nil => exact Int.le_refl 0
  | cons band rest ih =>
    exact Int.add_nonneg (capable_nonneg imbalance (h band List.mem_cons_self))
      (ih fun b hb => h b (List.mem_cons_of_mem band hb))

/-- An imbalance of zero asks for nothing. -/
theorem units_zero (total : Int) (band : Band) : units 0 total band = 0 := by
  have hparts : parts 0 total = 0 := by
    unfold parts
    rw [show (0 : Power).toInt.natAbs = 0 from rfl, Nat.zero_min, Nat.zero_mul, Decimal.halfEven,
      Nat.zero_mod, Nat.zero_div]
    simp
  rw [units, hparts, Int.natCast_zero, Int.zero_mul]

/-- Over valid bands there is a fraction, and every share of it is determined. -/
theorem share_threshold (hvalid : ∀ band ∈ bands, band.Valid)
    (hlimit : capacity imbalance bands ≤ 10 ^ 26) :
    ∃ f, fraction imbalance bands = .ok f ∧ ∀ band ∈ bands, ∃ k v, k ≤ 19 ∧
      Decimal.Fitted (units imbalance (capacity imbalance bands) band).natAbs k ∧
      share f imbalance band = .ok v ∧ ∀ n : Int, n ≤ v.toInt ↔
        (2 * n - 1) * 10 ^ 28 ≤ 2 * units imbalance (capacity imbalance bands) band +
          margin (units imbalance (capacity imbalance bands) band) k := by
  have hnonneg := @capacity_nonneg imbalance bands hvalid
  by_cases hI : imbalance = 0
  · subst hI
    refine ⟨0, fraction_zero bands, fun band _ => ⟨0, 0, Nat.zero_le 19, ?_, if_pos rfl, ?_⟩⟩
    · rw [units_zero]
      exact Decimal.fitted_zero (by decide)
    · intro n
      rw [units_zero]
      exact le_iff_of_whole (Nat.zero_le 19) n
  · obtain ⟨f, hf, hstands⟩ := fraction_standsFor hI hnonneg hlimit
    refine ⟨f, hf, fun band hband => ?_⟩
    exact share_eq hI (hvalid band hband).nonneg.1 (parts_le imbalance hnonneg) hstands

end Apportionment

namespace Distributor

open Apportionment

variable {P σ : Type} [Participant P σ]

/-- Shares that all exist are handed out to all. -/
theorem handOut_eq {f : Decimal} {imbalance : Power} (tick : Tick) (value : Band → Power)
    {registrations : List (Registration P)}
    (h : ∀ r ∈ registrations, share f imbalance r.band = .ok (value r.band)) :
    handOut f tick imbalance registrations =
      (.ok (registrations.map fun r => ⟨r.id, tick, value r.band⟩),
        registrations.map fun r =>
          { r with participant := Participant.receive r.participant tick (value r.band) }) := by
  induction registrations with
  | nil => rfl
  | cons r rest ih =>
    rw [handOut, h r List.mem_cons_self, ih fun s hs => h s (List.mem_cons_of_mem r hs)]
    rfl

/-- If every band has a share, the signal hands everybody the share of their band. -/
theorem signal_of_share {f : Decimal} {imbalance : Power} (d : Distributor P) (tick : Tick)
    {value : Band → Power} (hf : Apportionment.fraction imbalance d.bands = .ok f)
    (h : ∀ band ∈ d.bands, share f imbalance band = .ok (value band)) :
    d.signal tick imbalance =
      (.ok (d.registrations.map fun r => ⟨r.id, tick, value r.band⟩),
        ⟨d.registrations.map fun r =>
          { r with participant := Participant.receive r.participant tick (value r.band) }⟩) := by
  have hall := handOut_eq tick value fun r hr => h r.band (List.mem_map_of_mem hr)
  rw [signal, fraction, hf]
  simp only [hall]

/-- If every band has a share with some property, the signal hands everybody such a share. -/
theorem signal_of_shares {f : Decimal} {imbalance : Power} {Q : Band → Power → Prop}
    (d : Distributor P) (tick : Tick) (hf : Apportionment.fraction imbalance d.bands = .ok f)
    (h : ∀ band ∈ d.bands, ∃ v, share f imbalance band = .ok v ∧ Q band v) :
    ∃ value : Band → Power,
      d.signal tick imbalance =
        (.ok (d.registrations.map fun r => ⟨r.id, tick, value r.band⟩),
          ⟨d.registrations.map fun r =>
            { r with participant := Participant.receive r.participant tick (value r.band) }⟩) ∧
      ∀ band ∈ d.bands, Q band (value band) := by
  choose! value hshare hvalue using h
  exact ⟨value, signal_of_share d tick hf hshare, hvalue⟩

/-- What is known of the value for a band when `total` is what all bands can do together and a
product of the fraction loses `dropped` digits. -/
structure Settled (imbalance : Power) (total : Int) (band : Band) (value : Power)
    (dropped : Nat) : Prop where
  fitted : Decimal.Fitted (units imbalance total band).natAbs dropped
  value_eq : value.toInt = ⌊carriedShare (units imbalance total band) dropped + 1 / 2⌋
  near : |carriedShare (units imbalance total band) dropped - exactShare imbalance total band| ≤
    1 / 10 ^ 8
  /-- The value is right unless a half lies between the exact and the carried share. -/
  nearest_iff : value.toInt = ⌊exactShare imbalance total band + 1 / 2⌋ ↔
    ∀ n : Int, (n : Rat) + 1 / 2 ≤ exactShare imbalance total band ↔
      (n : Rat) + 1 / 2 ≤ carriedShare (units imbalance total band) dropped

/-- Away from every half a value is right. -/
theorem Settled.nearest_of_far {imbalance value : Power} {total : Int} {band : Band}
    {dropped : Nat} (h : Settled imbalance total band value dropped)
    (hfar : ∀ n : Int, 1 / 10 ^ 8 < |exactShare imbalance total band - (n + 1 / 2)|) :
    value.toInt = ⌊exactShare imbalance total band + 1 / 2⌋ := by
  refine h.nearest_iff.mpr fun n => ?_
  obtain ⟨hlo, hhi⟩ := abs_le.mp h.near
  rcases lt_abs.mp (hfar n) with hn | hn
  · exact iff_of_true (by linarith) (by linarith)
  · exact iff_of_false (by linarith) (by linarith)

/-- A signal over valid bands hands everybody the integer nearest to the exact share if and only
if no half lies between the exact share and the carried one. -/
theorem signal_nearest_iff (d : Distributor P) (tick : Tick) (imbalance : Power)
    (hvalid : ∀ band ∈ d.bands, band.Valid) (hlimit : capacity imbalance d.bands ≤ 10 ^ 26) :
    ∃ value : Band → Power,
      d.signal tick imbalance =
        (.ok (d.registrations.map fun r => ⟨r.id, tick, value r.band⟩),
          ⟨d.registrations.map fun r =>
            { r with participant := Participant.receive r.participant tick (value r.band) }⟩) ∧
      ∀ band ∈ d.bands, ∃ dropped,
        Settled imbalance (capacity imbalance d.bands) band (value band) dropped := by
  obtain ⟨f, hf, hshares⟩ := share_threshold hvalid hlimit
  obtain ⟨value, hvalue⟩ : ∃ value : Band → Power,
      ∀ band ∈ d.bands, share f imbalance band = .ok (value band) := by
    refine ⟨fun band => (share f imbalance band).toOption.getD 0, fun band hband => ?_⟩
    obtain ⟨k, v, _, _, hv, _⟩ := hshares band hband
    simp only [hv]
    rfl
  refine ⟨value, ?_, fun band hband => ?_⟩
  · have hall := handOut_eq tick value fun r hr => hvalue r.band (List.mem_map_of_mem hr)
    rw [signal, fraction, hf]
    simp only [hall]
  · obtain ⟨k, v, hk, hfitted, hv, hthreshold⟩ := hshares band hband
    obtain rfl := Except.ok.inj (hv.symm.trans (hvalue band hband))
    have hfloor := eq_floor_of_threshold hthreshold
    refine ⟨k, hfitted, hfloor, carriedShare_near (capacity_nonneg hvalid) hk, ?_⟩
    rw [hfloor]
    exact floor_half_eq_iff _ _

/-- Two participants that can take up 3 each. -/
def sixths : Distributor Rehearsal.Recorder where
  registrations := [⟨⟨"A"⟩, .new ⟨0, 3⟩, ⟨0, 3⟩⟩, ⟨⟨"B"⟩, .new ⟨0, 3⟩, ⟨0, 3⟩⟩]

theorem signal_nearest_iff_sixths :
    (∀ band ∈ sixths.bands, band.Valid) ∧ capacity 5 sixths.bands ≤ 10 ^ 26 ∧
      ∃ value : Band → Power, ∀ band ∈ sixths.bands, ∃ dropped,
        Settled 5 (capacity 5 sixths.bands) band (value band) dropped := by
  have hvalid : ∀ band ∈ sixths.bands, band.Valid := by
    intro band hband
    rcases List.mem_pair.mp hband with rfl | rfl <;>
      exact Band.valid_of_nonneg (by decide) (by decide)
  obtain ⟨value, _, h⟩ := signal_nearest_iff sixths 1 5 hvalid (by decide)
  exact ⟨hvalid, by decide, value, h⟩

/-- The exact share of 5 is two and a half for each, and the nearest integer 3. As a decimal the
quotient 5/6 is rounded down, and both are handed 2. -/
theorem signal_sixths_not_nearest :
    (sixths.signal 1 5).1 = .ok [⟨⟨"A"⟩, 1, 2⟩, ⟨⟨"B"⟩, 1, 2⟩] ∧
      ⌊exactShare 5 (capacity 5 sixths.bands) ⟨0, 3⟩ + 1 / 2⌋ = 3 := by
  have htotal : capacity 5 sixths.bands = 6 := by decide
  have hbound : bound 5 ⟨0, 3⟩ = 3 := by decide
  have himbalance : (5 : Power).toInt.natAbs = 5 := by decide
  refine ⟨by decide +kernel, ?_⟩
  rw [exactShare, htotal, hbound, himbalance]
  norm_num

end Distributor

end DemandResponse
