import DemandResponse.Proofs.Apportionment.Order
import DemandResponse.Proofs.Distributor.History

/-!
# Signals are fair

What a participant is handed follows from its band, the imbalance and what all participants can do
together. The order of registration has no part in it: power values add up exactly as decimals, as
long as they add up at all. Whoever can do more against an imbalance is asked for as much or more,
although the shares are rounded at places of their own.
-/

namespace DemandResponse

namespace Decimal

variable {total : Decimal} {n : Nat}

theorem build?_eq_none_iff : build? false n 0 = none ↔ limit ≤ n := by
  simp [build?]

/-- Adding a whole number to a whole number is exact. -/
theorem add_ofInt64 (h : build? false n 0 = some total) {p : Power} (hp : 0 ≤ p.toInt) :
    total.add (ofInt64 p) = build? false (n + p.toInt.toNat) 0 := by
  obtain ⟨hsign, hc, hs⟩ := build?_eq_some h
  by_cases hn : n = 0
  · have hzero : total.isZero = true := by simp [isZero, hc, hn]
    have hself := build?_self (ofInt64 p)
    rw [add, hzero, if_pos rfl, ← hself, hn, Nat.zero_add]
    show build? (decide (p.toInt < 0)) p.toInt.natAbs 0 = _
    rw [decide_eq_false (by omega), show p.toInt.natAbs = p.toInt.toNat by omega]
  have hzero : total.isZero = false := by simp [isZero, hc, hn]
  by_cases hp0 : p.toInt = 0
  · have hzero' : (ofInt64 p).isZero = true := by simp [isZero, ofInt64, hp0]
    rw [add, hzero, hzero', hp0]
    exact h.symm
  · have hzero' : (ofInt64 p).isZero = false := by simp [isZero, ofInt64, hp0]
    have hmantissa : (ofInt64 p).mantissa = p.toInt := mantissa_of_sign rfl rfl
    have htotal : total.mantissa = n := by simp [mantissa, hsign, hc]
    have hmax : max total.scale (ofInt64 p).scale = 0 := by rw [hs]; rfl
    have hsum : total.mantissaAt 0 + (ofInt64 p).mantissaAt 0 = n + p.toInt := by
      simp [mantissaAt, hmantissa, htotal, Digits.tenTo_zero]
    rw [add, hzero, hzero']
    simp only [Bool.false_eq_true, if_false, hmax, hsum]
    rw [fitMantissa, decide_eq_false (by omega),
      show (n + p.toInt).natAbs = n + p.toInt.toNat by omega]
    show build? false (drop _ 0) 0 = _
    rw [drop_zero]

end Decimal

namespace Apportionment

variable {imbalance : Power} {bands others : List Band}

/-- What some bands can do together, added up as decimals one after the other. -/
def totalled (imbalance : Power) (bands : List Band) : Option Decimal :=
  bands.foldlM (fun total band => total.add (.ofInt64 (capable imbalance band))) 0

theorem foldlM_add (hvalid : ∀ band ∈ bands, band.Valid) {total : Decimal} {n : Nat}
    (h : Decimal.build? false n 0 = some total) :
    bands.foldlM (fun total band => total.add (.ofInt64 (capable imbalance band))) total =
      Decimal.build? false (n + (capacity imbalance bands).toNat) 0 := by
  induction bands generalizing total n with
  | nil => exact h.symm
  | cons band rest ih =>
    have hrest : ∀ b ∈ rest, b.Valid := fun b hb => hvalid b (List.mem_cons_of_mem band hb)
    have hband := capable_nonneg imbalance (hvalid band List.mem_cons_self)
    have hnonneg := @capacity_nonneg imbalance rest hrest
    have hnat : (capacity imbalance (band :: rest)).toNat =
        (capable imbalance band).toInt.toNat + (capacity imbalance rest).toNat := by
      rw [capacity]
      omega
    rw [List.foldlM_cons, Decimal.add_ofInt64 h hband, hnat, ← Nat.add_assoc]
    cases hsum : Decimal.build? false (n + (capable imbalance band).toInt.toNat) 0 with
    | none =>
      -- what has outgrown a coefficient stays too long
      have hlong := Decimal.build?_eq_none_iff.mp hsum
      exact (Decimal.build?_eq_none_iff.mpr (by omega)).symm
    | some sum => exact ih hrest hsum

/-- Decimals add up to the capacity itself, or to nothing if no coefficient can hold it. -/
theorem totalled_eq (hvalid : ∀ band ∈ bands, band.Valid) :
    totalled imbalance bands = Decimal.build? false (capacity imbalance bands).toNat 0 := by
  have h := @foldlM_add imbalance bands hvalid 0 0 rfl
  rwa [Nat.zero_add] at h

/-- Up to the limit that is set here there is such a decimal, and it is exact. -/
theorem totalled_eq_some (hvalid : ∀ band ∈ bands, band.Valid)
    (hlimit : capacity imbalance bands ≤ 10 ^ 26) :
    ∃ total, totalled imbalance bands = some total ∧
      total.value = capacity imbalance bands := by
  have hnonneg := @capacity_nonneg imbalance bands hvalid
  have hshort : (capacity imbalance bands).toNat < Decimal.limit := by
    unfold Decimal.limit
    omega
  refine ⟨⟨false, _, 0, hshort, by decide⟩, ?_, ?_⟩
  · rw [totalled_eq hvalid, Decimal.build?, dif_pos ⟨hshort, by decide⟩]
  · show (((capacity imbalance bands).toNat : Int) : Rat) / Digits.tenTo 0 = _
    rw [Int.toNat_of_nonneg hnonneg, Digits.tenTo_zero, Nat.cast_one, div_one]

theorem capacity_perm (h : bands.Perm others) (imbalance : Power) :
    capacity imbalance bands = capacity imbalance others := by
  induction h with
  | nil => rfl
  | cons band _ ih => rw [capacity, capacity, ih]
  | swap a b rest =>
    simp only [capacity]
    omega
  | trans _ _ ih ih' => exact ih.trans ih'

theorem fraction_perm (h : bands.Perm others) (imbalance : Power) :
    fraction imbalance bands = fraction imbalance others := by
  simp only [fraction, capacity_perm h imbalance]

/-- Over valid bands there is a fraction, and every share of it is what its units come to. -/
theorem share_comesTo (hvalid : ∀ band ∈ bands, band.Valid)
    (hlimit : capacity imbalance bands ≤ 10 ^ 26) :
    ∃ f, fraction imbalance bands = .ok f ∧ ∀ band ∈ bands, ∃ v,
      share f imbalance band = .ok v ∧
      ComesTo (units imbalance (capacity imbalance bands) band) v.toInt := by
  obtain ⟨f, hf, hshares⟩ := share_threshold hvalid hlimit
  refine ⟨f, hf, fun band hband => ?_⟩
  obtain ⟨k, v, hk, hfitted, hv, hthreshold⟩ := hshares band hband
  exact ⟨v, hv, k, hk, hfitted, hthreshold⟩

/-- Values that follow the bands: who can do more against the imbalance is asked for as much or
more, and who can do the same for the same. -/
structure Fair (imbalance : Power) (bands : List Band) (value : Band → Power) : Prop where
  upward : 0 < imbalance → ∀ a ∈ bands, ∀ b ∈ bands, a.up ≤ b.up → value a ≤ value b
  downward : imbalance < 0 → ∀ a ∈ bands, ∀ b ∈ bands, a.down ≤ b.down → value b ≤ value a
  equal : ∀ a ∈ bands, ∀ b ∈ bands, capable imbalance a = capable imbalance b → value a = value b

/-- What comes of the units of one fraction is fair. -/
theorem fair_of_comesTo {total : Int} {value : Band → Power}
    (h : ∀ band ∈ bands, ComesTo (units imbalance total band) (value band).toInt) :
    Fair imbalance bands value := by
  have hle : ∀ a ∈ bands, ∀ b ∈ bands, bound imbalance a ≤ bound imbalance b →
      value a ≤ value b := by
    intro a ha b hb hbound
    rw [Int64.le_iff_toInt_le]
    exact (h a ha).le (h b hb) (units_le_of_bound_le hbound total)
  refine ⟨fun hI a ha b hb hab => ?_, fun hI a ha b hb hab => ?_, fun a ha b hb hab => ?_⟩
  · apply hle a ha b hb
    rw [bound, bound, if_pos hI, if_pos hI]
    exact Int64.le_iff_toInt_le.mp hab
  · apply hle b hb a ha
    rw [bound, bound, if_neg (Int64.lt_asymm hI), if_neg (Int64.lt_asymm hI)]
    exact Int.neg_le_neg (Int64.le_iff_toInt_le.mp hab)
  · have hbound : bound imbalance a = bound imbalance b := by
      rw [bound_eq, bound_eq, hab]
    apply Int64.le_antisymm
    · exact hle a ha b hb hbound.le
    · exact hle b hb a ha hbound.ge

end Apportionment

namespace Distributor

open Apportionment

variable {P Q σ τ : Type} [Participant P σ] [Participant Q τ]

/-- Who is registered with which band. -/
def holdings (d : Distributor P) : List (ParticipantId × Band) :=
  d.registrations.map fun r => (r.id, r.band)

theorem bands_eq (d : Distributor P) : d.bands = d.holdings.map Prod.snd := by
  rw [holdings, List.map_map]
  rfl

theorem participants_eq (d : Distributor P) : d.participants = d.holdings.map Prod.fst := by
  rw [holdings, List.map_map]
  rfl

/-- Two distributors with the same participants and bands, registered in whatever order, take the
decimals of their bands to the same sum and hand everybody the same value. Within one round these
values are fair. No name is registered twice (`Nodup`), as registration refuses a known name. -/
theorem signal_fair (d : Distributor P) (e : Distributor Q) (tick : Tick) (imbalance : Power)
    (hnames : d.participants.Nodup) (hvalid : ∀ band ∈ d.bands, band.Valid)
    (hlimit : capacity imbalance d.bands ≤ 10 ^ 26) (hsame : d.holdings.Perm e.holdings) :
    ∃ (total : Decimal) (value : Band → Power),
      (totalled imbalance d.bands = some total ∧ totalled imbalance e.bands = some total ∧
        total.value = capacity imbalance d.bands) ∧
      d.signal tick imbalance = (.ok (d.dues tick value), d.handed tick value) ∧
      e.signal tick imbalance = (.ok (e.dues tick value), e.handed tick value) ∧
      (∀ id ∈ d.participants, ∃ v, partFor id (d.dues tick value) = [(tick, v)] ∧
        partFor id (e.dues tick value) = [(tick, v)]) ∧
      Fair imbalance d.bands value := by
  have hbands : d.bands.Perm e.bands := by
    rw [bands_eq, bands_eq]
    exact hsame.map Prod.snd
  have hparticipants : d.participants.Perm e.participants := by
    rw [participants_eq, participants_eq]
    exact hsame.map Prod.fst
  have hvalid' : ∀ band ∈ e.bands, band.Valid := fun band hband =>
    hvalid band (hbands.mem_iff.mpr hband)
  obtain ⟨total, htotal, hvalue⟩ := totalled_eq_some hvalid hlimit
  obtain ⟨f, hf, hshares⟩ := share_comesTo hvalid hlimit
  choose! value hshare hcomes using hshares
  refine ⟨total, value, ⟨htotal, ?_, hvalue⟩, ?_, ?_, fun id hid => ?_, fair_of_comesTo hcomes⟩
  · rw [totalled_eq hvalid', ← capacity_perm hbands, ← totalled_eq hvalid, htotal]
  · exact signal_of_share d tick hf hshare
  · apply signal_of_share e tick
    · rw [← fraction_perm hbands, hf]
    · exact fun band hband => hshare band (hbands.mem_iff.mpr hband)
  · obtain ⟨r, hr, rfl⟩ := List.mem_map.mp hid
    have hmem : (r.id, r.band) ∈ e.holdings := by
      apply hsame.mem_iff.mp
      exact List.mem_map.mpr ⟨r, hr, rfl⟩
    obtain ⟨s, hs, hrs⟩ := List.mem_map.mp hmem
    obtain ⟨hname, hband⟩ := Prod.mk.inj hrs
    refine ⟨value r.band, partFor_dues hnames hr tick value, ?_⟩
    rw [← hname, ← hband]
    exact partFor_dues (hparticipants.nodup_iff.mp hnames) hs tick value

/-- The participants of `sixths` and one that can do twice as much, the last one first. -/
def twelfths : Distributor Rehearsal.Recorder where
  registrations := ⟨⟨"C"⟩, .new ⟨4, 6⟩, ⟨4, 6⟩⟩ :: sixths.registrations

/-- The same, the last one last. -/
def twelfthsReversed : Distributor Rehearsal.Recorder where
  registrations := twelfths.registrations.reverse

theorem signal_fair_twelfths :
    twelfths.participants.Nodup ∧ (∀ band ∈ twelfths.bands, band.Valid) ∧
      capacity 5 twelfths.bands ≤ 10 ^ 26 ∧
      twelfths.holdings.Perm twelfthsReversed.holdings ∧
      ∃ value : Band → Power,
        (twelfths.signal 1 5).1 = .ok (twelfths.dues 1 value) ∧
        (twelfthsReversed.signal 1 5).1 = .ok (twelfthsReversed.dues 1 value) ∧
        Fair 5 twelfths.bands value := by
  have hvalid : ∀ band ∈ twelfths.bands, band.Valid := by decide
  have hsame : twelfths.holdings.Perm twelfthsReversed.holdings := by
    apply List.Perm.map
    exact (List.reverse_perm _).symm
  obtain ⟨_, value, _, hd, he, _, hfair⟩ :=
    signal_fair twelfths twelfthsReversed 1 5 (by decide) hvalid (by decide) hsame
  exact ⟨by decide, hvalid, by decide, hsame, value, congrArg Prod.fst hd, congrArg Prod.fst he,
    hfair⟩

end Distributor

end DemandResponse
