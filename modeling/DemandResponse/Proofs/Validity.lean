import DemandResponse.Negotiation.Proposal
import DemandResponse.Proofs.Distributor.Signal
import DemandResponse.Proofs.Matching.Deliverable

/-!
# What is safe to use

The rules that the constructors of offers, bands and windows enforce, and what they are good for:
with valid offers and bands no contribution, no share and no capacity is ever at fault, and no
capacity is negative.
-/

namespace DemandResponse

/-- An offer that was built by `Offer.new`. -/
def Offer.Valid (o : Offer) : Prop :=
  ∃ id magnitude direction duration reaction cease,
    Offer.new id magnitude direction duration reaction cease = .ok o

theorem Offer.valid_iff {o : Offer} : o.Valid ↔ 0 ≤ o.magnitude := by
  constructor
  · rintro ⟨id, magnitude, direction, duration, reaction, cease, h⟩
    unfold Offer.new at h
    split at h
    · obtain rfl := Except.ok.inj h
      assumption
    · cases h
  · intro h
    exact ⟨o.id, o.magnitude, o.direction, o.duration, o.reaction, o.cease, if_pos h⟩

instance (o : Offer) : Decidable o.Valid := decidable_of_iff (0 ≤ o.magnitude) Offer.valid_iff.symm

theorem Band.valid_iff {band : Band} : band.Valid ↔ 0 ≤ band.down ∧ 0 ≤ band.up :=
  ⟨Band.Valid.nonneg, fun h => Band.valid_of_nonneg h.1 h.2⟩

def Matching.Activation.Valid (a : Activation) : Prop := a.offer.Valid

/-- All offers that are activated are valid. -/
def Matching.Outcome.Valid (o : Outcome) : Prop := ∀ a ∈ o.activations, a.Valid

namespace Negotiation.WorkProposal

/-- Of two marks the first is not the later one. -/
def Ordered (p : WorkProposal) : Prop := ∀ first ∈ p.beginMark, ∀ last ∈ p.endMark, first ≤ last

/-- A window that `withWindow` accepts is in order. -/
theorem ordered_of_withWindow {p q : WorkProposal} {first last : Tick}
    (h : p.withWindow first last = .ok q) : q.Ordered := by
  unfold withWindow at h
  split at h
  · obtain rfl := Except.ok.inj h
    rintro _ ⟨⟩ _ ⟨⟩
    assumption
  · cases h

end Negotiation.WorkProposal

/-- Only the least power cannot be turned downwards. -/
theorem Offer.exists_contribution_iff {o : Offer} : (∃ p, o.contribution = .ok p) ↔
    ¬ (o.direction = .down ∧ o.magnitude = Int64.minValue) := by
  have hlo := Int64.le_toInt o.magnitude
  have hhi := Int64.toInt_lt o.magnitude
  have hleast : o.magnitude = Int64.minValue ↔ o.magnitude.toInt = -2 ^ 63 := by
    rw [← Int64.toInt_inj, Int64.toInt_minValue]
  have hrange : (∃ p, o.contribution = .ok p) ↔ Power.InRange o.signedMagnitude := by
    simp only [Offer.contribution_eq_ok_iff, ← Power.ofInt?_eq_some_iff]
    rw [← Option.ne_none_iff_exists', Ne, Power.ofInt?_eq_none_iff, not_not]
  rw [hrange, hleast, Offer.signedMagnitude]
  unfold Power.InRange Power.least Power.greatest
  cases o.direction <;> simp [Direction.sign] <;> omega

theorem Offer.Valid.exists_contribution {o : Offer} (h : o.Valid) :
    ∃ p, o.contribution = .ok p := by
  rw [Offer.exists_contribution_iff]
  rintro ⟨-, hleast⟩
  exact absurd (Offer.valid_iff.mp h) (hleast ▸ by decide)

namespace Apportionment

variable {imbalance : Power} {bands : List Band}

/-- Over valid bands the fraction can fail only for want of a decimal that holds the capacity. -/
theorem exists_fraction_iff (hvalid : ∀ band ∈ bands, band.Valid) :
    (∃ f, fraction imbalance bands = .ok f) ↔
      imbalance = 0 ∨ capacity imbalance bands < Decimal.limit := by
  have hnonneg := @capacity_nonneg imbalance bands hvalid
  constructor
  · rintro ⟨f, hf⟩
    by_contra hlong
    obtain ⟨hI, hlimit⟩ := not_or.mp hlong
    have hpos : 0 < Decimal.limit := by decide
    rw [fraction, if_neg (not_or.mpr ⟨hI, by omega⟩), if_pos (by omega)] at hf
    cases hf
  · rintro (rfl | hlimit)
    · exact ⟨0, fraction_zero bands⟩
    · by_cases hI : imbalance = 0
      · exact ⟨0, hI ▸ fraction_zero bands⟩
      · obtain ⟨f, hf, _⟩ := fraction_standsFor_of_lt_limit hI hnonneg hlimit
        exact ⟨f, hf⟩

/-- Every valid band has its share of the fraction that valid bands are asked for. -/
theorem exists_share (hvalid : ∀ band ∈ bands, band.Valid) {f : Decimal}
    (hf : fraction imbalance bands = .ok f) {band : Band} (hband : band ∈ bands) :
    ∃ v, share f imbalance band = .ok v := by
  by_cases hI : imbalance = 0
  · exact ⟨0, if_pos hI⟩
  · have hnonneg := @capacity_nonneg imbalance bands hvalid
    have hlimit := ((exists_fraction_iff hvalid).mp ⟨f, hf⟩).resolve_left hI
    obtain ⟨g, hg, hstands⟩ := fraction_standsFor_of_lt_limit hI hnonneg hlimit
    obtain rfl := Except.ok.inj (hf.symm.trans hg)
    obtain ⟨_, v, _, _, hv, _⟩ :=
      share_eq hI (hvalid band hband).nonneg.1 (parts_le imbalance hnonneg) hstands
    exact ⟨v, hv⟩

end Apportionment

theorem Book.deliverable_nonneg_of_valid {calls : List Book.Filling}
    (h : ∀ call ∈ calls, ∀ o ∈ call.offers, o.Valid) (way : Direction) :
    0 ≤ (Book.filled calls).deliverable way := by
  apply Book.deliverable_nonneg
  exact Book.sound_filled fun call hcall o ho => Offer.valid_iff.mp (h call hcall o ho)

/-- A book of one offer delivers its magnitude. -/
theorem Book.deliverable_singleton (site : SiteId) (o : Offer) :
    (Book.filled [.add site o]).deliverable o.direction = o.magnitude := by
  have hoffers : (Book.filled [.add site o]).offersFor site = [o] := by
    change ((List.find? (fun e => e.1 = site) [(site, [o])]).map Prod.snd).getD [] = [o]
    simp
  have hmagnitude : (Book.filled [.add site o]).maxMagnitude site o.direction = o.magnitude := by
    simp [Book.maxMagnitude, hoffers]
  change Power.addClamped 0 ((Book.filled [.add site o]).maxMagnitude site o.direction) = _
  rw [hmagnitude, Power.addClamped, Int64.toInt_zero, Int.zero_add, ← Int64.toInt_inj,
    Power.toInt_clamp (Power.inRange_toInt _)]

theorem Offer.valid_iff_deliverable {o : Offer} (site : SiteId) :
    o.Valid ↔ ∀ way, 0 ≤ (Book.filled [.add site o]).deliverable way := by
  constructor
  · intro h
    refine Book.deliverable_nonneg_of_valid fun call hcall p hp => ?_
    obtain rfl := List.mem_singleton.mp hcall
    obtain rfl := List.mem_singleton.mp hp
    exact h
  · intro h
    rw [Offer.valid_iff, ← Book.deliverable_singleton site o]
    exact h o.direction

/-- An aggregator with valid offers reports a valid band, unless an id comes again. -/
theorem Aggregator.capacity_of_valid {σ : Type} {a : Aggregator σ} {w : σ}
    (h : ∀ s ∈ a.sites, ∀ o ∈ s.2.offers w, o.Valid) :
    (∃ band, band.Valid ∧ (a.capacity w).1 = .ok band) ∨
      ∃ id, (a.capacity w).1 = .error (.repeatedOffer id) := by
  have hcalls : ∀ call ∈ a.fillings w, ∀ o ∈ call.offers, 0 ≤ o.magnitude := by
    intro call hcall o ho
    obtain ⟨e, he, rfl⟩ := List.mem_map.mp hcall
    obtain ⟨s, hs, rfl⟩ := List.mem_map.mp he
    exact Offer.valid_iff.mp (h s hs o ho)
  have hsound := Book.sound_filled hcalls
  rcases Aggregator.capacity_cases hsound with hcapacity | ⟨id, hcapacity⟩
  · refine Or.inl ⟨_, Band.valid_of_nonneg ?_ ?_, congrArg Prod.fst hcapacity⟩
    · exact Book.deliverable_nonneg hsound .down
    · exact Book.deliverable_nonneg hsound .up
  · exact Or.inr ⟨id, congrArg Prod.fst hcapacity⟩

end DemandResponse
