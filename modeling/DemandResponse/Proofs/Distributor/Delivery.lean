import DemandResponse.Proofs.Aggregator.Runs
import DemandResponse.Proofs.Distributor.Limits
import DemandResponse.Proofs.Distributor.Registry
import DemandResponse.Rehearsal.Yard

/-!
# A grid that is asked for all it has

A grid is a distributor whose participants are aggregators. An imbalance that all polled bands
together cannot outdo asks every aggregator for the band that it has declared, and what it has
declared is what its next match achieves. The sites may change their offers in between.
-/

namespace DemandResponse.Distributor

open Apportionment
open Rehearsal (Yard)

variable {P σ : Type}

variable {world : σ} {imbalance : Power} {before after : Registration (Aggregator σ)}

/-- The registration of an aggregator before and after a round that asks for all it has. -/
structure Exhausted (world : σ) (imbalance : Power)
    (before after : Registration (Aggregator σ)) : Prop where
  id_eq : after.id = before.id
  up_eq : after.band.up.toInt = promise .up (before.participant.offering world)
  down_eq : after.band.down.toInt = promise .down (before.participant.offering world)
  upward : 0 < imbalance → after.participant.Delivers after.band.up
  downward : imbalance < 0 →
    ∃ power, power.toInt = -after.band.down.toInt ∧ after.participant.Delivers power

/-- An aggregator that is polled and handed the limit of its band delivers it. -/
theorem exhausted_of_full {settings : Settings} {value : Power}
    (hstrategy : settings.strategy = .exhaustive) (hwired : before.participant.Wired settings)
    (hpoll : before.participant.Pollable world)
    (hvalue : value.toInt = bound imbalance (before.participant.declared world)) :
    Exhausted world imbalance before
      ⟨before.id, (before.participant.refreshed world).receive value,
        before.participant.declared world⟩ := by
  have hlimit := hwired.toInt_deliverable hpoll
  have hdelivers : ∀ way : Direction,
      way.sign * value.toInt = promise way (before.participant.offering world) →
      ((before.participant.refreshed world).receive value).Delivers value := by
    intro way hway
    have hnext : ((before.participant.refreshed world).receive value).Wired settings :=
      { hwired with }
    exact hnext.delivers hstrategy (hwired.sites_offering world) (hpoll.fits way) hway world
  refine ⟨rfl, hlimit .up, hlimit .down, fun hpos => ?_, fun hneg => ?_⟩
  · rw [bound, if_pos hpos] at hvalue
    obtain rfl : value = (before.participant.declared world).up := Int64.toInt_inj.mp hvalue
    exact hdelivers .up ((Int.one_mul _).trans (hlimit .up))
  · rw [bound, if_neg (Int64.lt_asymm hneg)] at hvalue
    refine ⟨value, hvalue, hdelivers .down ?_⟩
    rw [← hlimit .down, hvalue]
    exact (Int.neg_mul_neg _ _).trans (Int.one_mul _)

/-- A grid once it has been polled. -/
def polled (d : Distributor (Aggregator σ)) (world : σ) : Distributor (Aggregator σ) where
  registrations := d.registrations.map fun r =>
    { r with
      participant := r.participant.refreshed world
      band := r.participant.declared world }

variable {d : Distributor (Aggregator σ)}

/-- Where no aggregator's sites repeat an id, a poll reaches all of them. -/
theorem poll_of_distinct
    (hwired : ∀ r ∈ d.registrations, ∃ settings, r.participant.Wired settings)
    (hids : ∀ r ∈ d.registrations, (Book.idsOf (r.participant.offering world)).Nodup)
    (hsound : ∀ r ∈ d.registrations, Book.Sound (r.participant.offering world)) :
    d.poll world = (.ok (), d.polled world) := by
  have heach := @pollEach_eq _ _ d.registrations _ world (fun a => a.declared world)
    (fun a => a.refreshed world) fun r hr => by
      obtain ⟨settings, h⟩ := hwired r hr
      exact h.capacity_of_distinct (hids r hr) (hsound r hr)
  rw [poll, heach]
  rfl

theorem poll_eq (hwired : ∀ r ∈ d.registrations, ∃ settings, r.participant.Wired settings)
    (hpoll : ∀ r ∈ d.registrations, r.participant.Pollable world) :
    d.poll world = (.ok (), d.polled world) :=
  poll_of_distinct hwired (fun r hr => (hpoll r hr).ids_nodup) fun r hr => (hpoll r hr).sound

/-- Magnitudes that are not negative make valid bands. -/
theorem valid_of_sound
    (hsound : ∀ r ∈ d.registrations, Book.Sound (r.participant.offering world)) :
    ∀ band ∈ (d.polled world).bands, band.Valid := by
  intro band hband
  rw [bands, polled, List.map_map] at hband
  obtain ⟨r, hr, rfl⟩ := List.mem_map.mp hband
  exact ⟨_, _, Book.band_deliverable (hsound r hr)⟩

theorem valid_of_polled (hpoll : ∀ r ∈ d.registrations, r.participant.Pollable world) :
    ∀ band ∈ (d.polled world).bands, band.Valid :=
  valid_of_sound fun r hr => (hpoll r hr).sound

/-- After a round for an imbalance that the polled bands cannot outdo, every aggregator delivers
the limit of the band that it has declared. -/
theorem afterTick_exhausts (d : Distributor (Aggregator σ)) (world : σ) (now : Tick)
    (imbalance : Power)
    (hreached : ∀ r ∈ d.registrations, ∃ settings : Settings,
      settings.strategy = .exhaustive ∧ r.participant.Reached settings)
    (hpoll : ∀ r ∈ d.registrations, r.participant.Pollable world)
    (hcovered : capacity imbalance (d.poll world).2.bands ≤ imbalance.toInt.natAbs) :
    ∃ signals d', d.afterTick world now imbalance = (.ok signals, d') ∧
      d'.bands = (d.poll world).2.bands ∧
      List.Forall₂ (Exhausted world imbalance) d.registrations d'.registrations := by
  have hpolled : d.poll world = (.ok (), d.polled world) := by
    refine poll_eq (fun r hr => ?_) hpoll
    obtain ⟨settings, _, hr⟩ := hreached r hr
    exact ⟨settings, hr.wired⟩
  rw [hpolled] at hcovered ⊢
  change capacity imbalance (d.polled world).bands ≤ _ at hcovered
  have hlimit : capacity imbalance (d.polled world).bands ≤ 10 ^ 26 := by
    have := Power.inRange_toInt imbalance
    unfold Power.InRange Power.least Power.greatest at this
    omega
  obtain ⟨f, hf, hshares⟩ := share_limited (valid_of_polled hpoll) hlimit
  obtain ⟨value, hsignal, hvalue⟩ := signal_of_shares (d.polled world) now hf hshares
  have hafter : d.afterTick world now imbalance = (d.polled world).signal now imbalance := by
    rw [afterTick, hpolled]
  refine ⟨_, _, hafter.trans hsignal, ?_, ?_⟩
  · rw [bands, bands, List.map_map]
    rfl
  · rw [polled, List.map_map, List.forall₂_map_right_iff, List.forall₂_same]
    intro r hr
    obtain ⟨settings, hstrategy, hreach⟩ := hreached r hr
    have hband : r.participant.declared world ∈ (d.polled world).bands := by
      rw [bands, polled, List.map_map]
      exact List.mem_map_of_mem hr
    exact exhausted_of_full hstrategy hreach.wired (hpoll r hr)
      ((hvalue _ hband).1.full hcovered)

/-- Two aggregators of which the second matches on every third tick. -/
def pairOfThree : Distributor (Aggregator Yard) where
  registrations :=
    [⟨⟨"A"⟩,
        (((Aggregator.new ⟨.exhaustive, 1⟩).register ⟨"north"⟩ (Yard.site 0 ⟨"north"⟩)).2.register
          ⟨"south"⟩ (Yard.site 1 ⟨"south"⟩)).2,
        .zero⟩,
      ⟨⟨"B"⟩,
        ((Aggregator.new ⟨.exhaustive, 3⟩).register ⟨"north"⟩ (Yard.site 2 ⟨"north"⟩)).2,
        .zero⟩]

/-- Upward they have 10, 20 and nothing, downward 4, nothing and 7. -/
def threeSites : Yard where
  sites :=
    [(⟨"north"⟩, [⟨1, 10, .up, 0, 0, 0⟩, ⟨2, 4, .down, 0, 0, 0⟩]),
      (⟨"south"⟩, [⟨3, 5, .up, 0, 0, 0⟩, ⟨4, 20, .up, 0, 0, 0⟩]),
      (⟨"north"⟩, [⟨1, 7, .down, 0, 0, 0⟩])]
  journal := []

theorem afterTick_exhausts_pairOfThree :
    capacity (-11) (pairOfThree.poll threeSites).2.bands ≤ (-11 : Power).toInt.natAbs ∧
      ∃ signals d', pairOfThree.afterTick threeSites 0 (-11) = (.ok signals, d') ∧
        d'.bands = [⟨4, 30⟩, ⟨7, 0⟩] ∧
        List.Forall₂ (Exhausted threeSites (-11)) pairOfThree.registrations d'.registrations := by
  have hreached : ∀ r ∈ pairOfThree.registrations, ∃ settings : Settings,
      settings.strategy = .exhaustive ∧ r.participant.Reached settings := by
    intro r hr
    rcases List.mem_pair.mp hr with rfl | rfl
    · exact ⟨⟨.exhaustive, 1⟩, rfl,
        .tail (.tail .refl ⟨threeSites, .register _ _, trivial, rfl⟩)
          ⟨threeSites, .register _ _, trivial, rfl⟩⟩
    · exact ⟨⟨.exhaustive, 3⟩, rfl, .tail .refl ⟨threeSites, .register _ _, trivial, rfl⟩⟩
  have hpoll : ∀ r ∈ pairOfThree.registrations, r.participant.Pollable threeSites := by
    intro r hr
    rcases List.mem_pair.mp hr with rfl | rfl <;>
      exact ⟨by decide, by unfold Book.Sound; decide, fun way => by cases way <;> decide⟩
  obtain ⟨signals, d', hafter, hbands, h⟩ :=
    afterTick_exhausts pairOfThree threeSites 0 (-11) hreached hpoll (by decide)
  exact ⟨by decide, signals, d', hafter, hbands.trans (by decide), h⟩

end DemandResponse.Distributor
