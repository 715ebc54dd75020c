import DemandResponse.Proofs.Distributor.Signal

/-!
# The limits of a signal

Whatever the roundings do to it, a share stays between zero and the limit of its band towards
which the imbalance pushes. An imbalance that all bands together cannot outdo asks for the whole
band of everybody. The last decimal of a share is always within the range of power values, also
for bands at the ends of this range.
-/

namespace DemandResponse

namespace Apportionment

variable {imbalance : Power} {bands : List Band} {band : Band}

theorem bound_eq (imbalance : Power) (band : Band) :
    bound imbalance band =
      if 0 < imbalance then (capable imbalance band).toInt
      else -(capable imbalance band).toInt := by
  unfold bound capable
  split <;> rfl

/-- Nobody can do more than all together. -/
theorem capable_le_capacity (hvalid : ∀ b ∈ bands, b.Valid) (hband : band ∈ bands) :
    (capable imbalance band).toInt ≤ capacity imbalance bands := by
  induction bands with
  | nil => cases hband
  | cons b rest ih =>
    have hrest : ∀ x ∈ rest, x.Valid := fun x hx => hvalid x (List.mem_cons_of_mem b hx)
    have hb := capable_nonneg imbalance (hvalid b List.mem_cons_self)
    have hcapacity := @capacity_nonneg imbalance rest hrest
    rw [capacity]
    rcases List.mem_cons.mp hband with rfl | hmem
    · omega
    · have := ih hrest hmem
      omega

/-- What a value may be, and has to be, for a band when `total` is what all bands can do
together. -/
structure Limited (imbalance : Power) (total : Int) (band : Band) (value : Power) : Prop where
  idle : imbalance = 0 → value = 0
  upward : 0 < imbalance → 0 ≤ value ∧ value ≤ band.up
  downward : imbalance < 0 → -band.down.toInt ≤ value.toInt ∧ value ≤ 0
  /-- What cannot be outdone asks for the whole band. -/
  full : total ≤ imbalance.toInt.natAbs → value.toInt = bound imbalance band

/-- A value between zero and its bound respects the band in both directions. -/
theorem limited_of_between {total : Int} {value : Power} (hI : imbalance ≠ 0)
    (hvalid : band.Valid) (hlo : min 0 (bound imbalance band) ≤ value.toInt)
    (hhi : value.toInt ≤ max 0 (bound imbalance band))
    (hfull : total ≤ imbalance.toInt.natAbs → value.toInt = bound imbalance band) :
    Limited imbalance total band value := by
  have hdown : 0 ≤ band.down.toInt := Int64.le_iff_toInt_le.mp hvalid.nonneg.1
  have hup : 0 ≤ band.up.toInt := Int64.le_iff_toInt_le.mp hvalid.nonneg.2
  refine ⟨fun h => absurd h hI, fun hpos => ?_, fun hneg => ?_, hfull⟩
  · rw [bound, if_pos hpos] at hlo hhi
    rw [Int64.le_iff_toInt_le, Int64.le_iff_toInt_le, Int64.toInt_zero]
    omega
  · rw [bound, if_neg (Int64.lt_asymm hneg)] at hlo hhi
    rw [Int64.le_iff_toInt_le, Int64.toInt_zero]
    omega

/-- Over valid bands there is a fraction, and every share of it respects its band. -/
theorem share_limited (hvalid : ∀ b ∈ bands, b.Valid)
    (hlimit : capacity imbalance bands ≤ 10 ^ 26) :
    ∃ f, fraction imbalance bands = .ok f ∧ ∀ band ∈ bands, ∃ v,
      share f imbalance band = .ok v ∧ Limited imbalance (capacity imbalance bands) band v ∧
      (imbalance ≠ 0 → Converts f imbalance band v) := by
  have hnonneg := @capacity_nonneg imbalance bands hvalid
  have hspent : ∀ band ∈ bands, capacity imbalance bands = 0 → bound imbalance band = 0 := by
    intro band hband hzero
    have hle := @capable_le_capacity imbalance bands band hvalid hband
    have hcapable := capable_nonneg imbalance (hvalid band hband)
    rw [bound_eq]
    split <;> omega
  by_cases hI : imbalance = 0
  · subst hI
    refine ⟨0, fraction_zero bands, fun band hband => ⟨0, if_pos rfl, ?_, absurd rfl⟩⟩
    refine ⟨fun _ => rfl, fun h => absurd h (by decide), fun h => absurd h (by decide), ?_⟩
    intro hcovered
    have hzero : capacity 0 bands = 0 := Int.le_antisymm hcovered hnonneg
    exact (hspent band hband hzero).symm
  · obtain ⟨f, hf, hstands⟩ := fraction_standsFor hI hnonneg hlimit
    refine ⟨f, hf, fun band hband => ?_⟩
    have hparts := parts_le imbalance hnonneg
    obtain ⟨k, v, hk, _, hconverts, hthreshold⟩ :=
      exists_converts (hvalid band hband).nonneg.1 hparts hstands
    obtain ⟨hlo, hhi⟩ := between_of_threshold hparts hk hthreshold
    refine ⟨v, share_of_converts hI hconverts, ?_, fun _ => hconverts⟩
    refine limited_of_between hI (hvalid band hband) hlo hhi fun hcovered => ?_
    rcases Int.lt_or_eq_of_le hnonneg with hpos | hzero
    · -- all of a band is a whole number of units, and its own nearest integer
      rw [units, parts_of_le hpos hcovered] at hthreshold
      have hwhole := fun n => (hthreshold n).trans (le_iff_of_whole hk n).symm
      exact Int.le_antisymm ((hwhole _).mp (Int.le_refl _)) ((hwhole _).mpr (Int.le_refl _))
    · have := hspent band hband hzero.symm
      omega

end Apportionment

namespace Distributor

open Apportionment

variable {P σ : Type} [Participant P σ]

/-- A signal over valid bands does not fault. It hands one value to everybody, in the order of
registration, and every value respects the band that it is meant for. -/
theorem signal_limited (d : Distributor P) (tick : Tick) (imbalance : Power)
    (hvalid : ∀ band ∈ d.bands, band.Valid) (hlimit : capacity imbalance d.bands ≤ 10 ^ 26) :
    ∃ (f : Decimal) (value : Band → Power), d.fraction imbalance = .ok f ∧
      d.signal tick imbalance =
        (.ok (d.registrations.map fun r => ⟨r.id, tick, value r.band⟩),
          ⟨d.registrations.map fun r =>
            { r with participant := Participant.receive r.participant tick (value r.band) }⟩) ∧
      ∀ band ∈ d.bands, Limited imbalance (capacity imbalance d.bands) band (value band) ∧
        (imbalance ≠ 0 → Converts f imbalance band (value band)) := by
  obtain ⟨f, hf, hshares⟩ := share_limited hvalid hlimit
  choose! value hshare hlimited hconverts using hshares
  refine ⟨f, value, hf, ?_, fun band hband => ⟨hlimited band hband, hconverts band hband⟩⟩
  have hall := handOut_eq tick value fun r hr => hshare r.band (List.mem_map_of_mem hr)
  rw [signal, fraction, hf]
  simp only [hall]

/-- Two participants that reach as far as power values do, and one that can only go up. -/
def farthest : Distributor Rehearsal.Recorder where
  registrations :=
    [⟨⟨"A"⟩, .new ⟨0x7fffffffffffffff, 0x7fffffffffffffff⟩,
        ⟨0x7fffffffffffffff, 0x7fffffffffffffff⟩⟩,
      ⟨⟨"B"⟩, .new ⟨0x7fffffffffffffff, 0x7fffffffffffffff⟩,
        ⟨0x7fffffffffffffff, 0x7fffffffffffffff⟩⟩,
      ⟨⟨"C"⟩, .new ⟨0, 1⟩, ⟨0, 1⟩⟩]

theorem signal_limited_farthest :
    (∀ band ∈ farthest.bands, band.Valid) ∧ capacity Int64.minValue farthest.bands ≤ 10 ^ 26 ∧
      ∃ (f : Decimal) (value : Band → Power), farthest.fraction Int64.minValue = .ok f ∧
        (farthest.signal 1 Int64.minValue).1 =
          .ok (farthest.registrations.map fun r => ⟨r.id, 1, value r.band⟩) ∧
        ∀ band ∈ farthest.bands,
          Limited Int64.minValue (capacity Int64.minValue farthest.bands) band (value band) ∧
            Converts f Int64.minValue band (value band) := by
  have hvalid : ∀ band ∈ farthest.bands, band.Valid := by
    intro band hband
    simp only [bands, farthest, List.map_cons, List.map_nil, List.mem_cons, List.not_mem_nil,
      or_false] at hband
    rcases hband with rfl | rfl | rfl <;> exact Band.valid_of_nonneg (by decide) (by decide)
  obtain ⟨f, value, hf, hsignal, h⟩ :=
    signal_limited farthest 1 Int64.minValue hvalid (by decide)
  exact ⟨hvalid, by decide, f, value, hf, congrArg Prod.fst hsignal,
    fun band hband => ⟨(h band hband).1, (h band hband).2 (by decide)⟩⟩

end Distributor

end DemandResponse
