import DemandResponse.Proofs.Book.Repetition
import DemandResponse.Proofs.Distributor.Delivery
import DemandResponse.Proofs.Distributor.Operations

/-!
# A round that breaks down

A grid is polled before anything is signalled. If the sites of some aggregator repeat an id, the
poll ends there: the aggregators before it have new books and bands, all others have kept theirs,
and nobody has been given a target. If none does, everybody is polled and then given one target.
The ids of different aggregators have nothing to do with each other. A round only reads the world
of the sites, in which activations are noted.
-/

namespace DemandResponse

namespace Aggregator

variable {σ : Type} {settings : Settings} {a : Aggregator σ} {w : σ}

/-- Where the sites repeat an id, a poll names the first one that has come before. -/
theorem Wired.capacity_of_repeated (h : Wired settings a)
    (hids : ¬ (Book.idsOf (a.offering w)).Nodup) :
    ∃ id, FirstRepeat (Book.idsOf (a.offering w)) id ∧
      a.capacity w = (.error (.repeatedOffer id), a) := by
  obtain ⟨id, hrepeat, hanswer⟩ :=
    @Book.extendAll_repeated [] (a.offering w) (h.nodup_offering w) List.nodup_nil hids
  have hgather : a.gather w = .error (.repeatedOffer id) := by
    have hbook : Book.extendAll (a.sites.map fun s => (s.1, s.2.offers w)) .empty =
      Book.extendAll (a.offering w) (.listing []) := rfl
    rw [gather, hbook]
    generalize Book.extendAll (a.offering w) (.listing []) = attempt at hanswer
    obtain ⟨_, book⟩ := attempt
    obtain rfl := hanswer
    rfl
  exact ⟨id, hrepeat, by rw [Aggregator.capacity, hgather]⟩

end Aggregator

namespace Distributor

open Apportionment
open Rehearsal (Yard)

variable {σ : Type}

/-- The ids that the sites of an aggregator offer, in their order. -/
def offeredIds (world : σ) (r : Registration (Aggregator σ)) : List Int64 :=
  Book.idsOf (r.participant.offering world)

/-- What a signal and a tick would change in an aggregator. -/
def standing (r : Registration (Aggregator σ)) : Power × Nat :=
  (r.participant.target, r.participant.ticks)

variable {d : Distributor (Aggregator σ)} {world : σ} {r : Registration (Aggregator σ)}

/-- A poll ends at the first aggregator whose sites repeat an id. -/
theorem poll_of_repeated {before rest : List (Registration (Aggregator σ))}
    (hwired : ∀ r ∈ d.registrations, ∃ settings, r.participant.Wired settings)
    (hsound : ∀ r ∈ d.registrations, Book.Sound (r.participant.offering world))
    (hsplit : d.registrations = before ++ r :: rest)
    (hbefore : ∀ s ∈ before, (offeredIds world s).Nodup) (hr : ¬ (offeredIds world r).Nodup) :
    ∃ id, FirstRepeat (offeredIds world r) id ∧
      d.poll world = (.error (.repeatedOffer id),
        ⟨(polled ⟨before⟩ world).registrations ++ r :: rest⟩) := by
  have hcapacity : ∀ s ∈ before, Participant.capacity s.participant world =
      (.ok (s.participant.declared world), s.participant.refreshed world) := by
    intro s hs
    have hmem : s ∈ d.registrations := hsplit ▸ List.mem_append_left _ hs
    obtain ⟨settings, h⟩ := hwired s hmem
    exact h.capacity_of_distinct (hbefore s hs) (hsound s hmem)
  have hmem : r ∈ d.registrations := hsplit ▸ List.mem_append_right _ List.mem_cons_self
  obtain ⟨settings, h⟩ := hwired r hmem
  obtain ⟨id, hrepeat, hbroken⟩ := h.capacity_of_repeated hr
  refine ⟨id, hrepeat, ?_⟩
  have heach := @pollEach_broken _ _ r _ world (fun a => a.declared world)
    (fun a => a.refreshed world) before rest _ _ hcapacity hbroken
  rw [poll, hsplit, heach]
  rfl

/-- A round is all or nothing in what it signals. Either no aggregator's sites repeat an id: then
all are polled, and after that everybody is given one target. Or the round ends at the first
aggregator whose sites do: those before it are polled, it and the others are as they were, and
everybody's target and ticks too. -/
theorem afterTick_all_or_nothing (d : Distributor (Aggregator σ)) (world : σ) (now : Tick)
    (imbalance : Power)
    (hreached : ∀ r ∈ d.registrations, ∃ settings, r.participant.Reached settings)
    (hsound : ∀ r ∈ d.registrations, Book.Sound (r.participant.offering world))
    (hlimit : capacity imbalance (d.polled world).bands ≤ 10 ^ 26) :
    ((∀ r ∈ d.registrations, (offeredIds world r).Nodup) ∧
      d.poll world = (.ok (), d.polled world) ∧
      d.afterTick world now imbalance = (d.polled world).signal now imbalance ∧
      ∃ value : Band → Power, (d.polled world).signal now imbalance =
        (.ok ((d.polled world).dues now value), (d.polled world).handed now value)) ∨
    ∃ before r rest id, d.registrations = before ++ r :: rest ∧
      (∀ s ∈ before, (offeredIds world s).Nodup) ∧ FirstRepeat (offeredIds world r) id ∧
      d.afterTick world now imbalance = (.error (.repeatedOffer id),
        ⟨(polled ⟨before⟩ world).registrations ++ r :: rest⟩) ∧
      (d.afterTick world now imbalance).2.registrations.map standing =
        d.registrations.map standing := by
  have hwired : ∀ r ∈ d.registrations, ∃ settings, r.participant.Wired settings := by
    intro r hr
    obtain ⟨settings, h⟩ := hreached r hr
    exact ⟨settings, h.wired⟩
  -- the first aggregator whose sites repeat an id, if there is one
  rcases hfirst : d.registrations.find? (fun r => ¬ (offeredIds world r).Nodup) with _ | r
  · have hids : ∀ r ∈ d.registrations, (offeredIds world r).Nodup := by
      simpa [List.find?_eq_none] using hfirst
    have hpoll := poll_of_distinct hwired hids hsound
    obtain ⟨f, value, _, hsignal, _⟩ :=
      signal_limited (d.polled world) now imbalance (valid_of_sound hsound) hlimit
    exact .inl ⟨hids, hpoll, by rw [afterTick, hpoll], value, hsignal⟩
  · obtain ⟨hr, before, rest, hsplit, hbefore⟩ := List.find?_eq_some_iff_append.mp hfirst
    have hbefore : ∀ s ∈ before, (offeredIds world s).Nodup := by simpa using hbefore
    obtain ⟨id, hrepeat, hpoll⟩ :=
      poll_of_repeated hwired hsound hsplit hbefore (of_decide_eq_true hr)
    have hafter : d.afterTick world now imbalance = (.error (.repeatedOffer id),
        ⟨(polled ⟨before⟩ world).registrations ++ r :: rest⟩) := by
      rw [afterTick, hpoll]
    refine .inr ⟨before, r, rest, id, hsplit, hbefore, hrepeat, hafter, ?_⟩
    rw [hafter, hsplit, List.map_append, List.map_append, polled, List.map_map]
    rfl

/-- Two aggregators with one site each. -/
def neighbours : Distributor (Aggregator Yard) where
  registrations :=
    [⟨⟨"A"⟩, ((Aggregator.new ⟨.exhaustive, 1⟩).register ⟨"north"⟩ (Yard.site 0 ⟨"north"⟩)).2,
        .zero⟩,
      ⟨⟨"B"⟩, ((Aggregator.new ⟨.exhaustive, 3⟩).register ⟨"south"⟩ (Yard.site 1 ⟨"south"⟩)).2,
        .zero⟩]

/-- The neighbours offer the same id. -/
def shared : Yard where
  sites := [(⟨"north"⟩, [⟨1, 10, .up, 0, 0, 0⟩]), (⟨"south"⟩, [⟨1, 4, .up, 0, 0, 0⟩])]
  journal := []

/-- One of them offers an id twice. -/
def doubled : Yard where
  sites := [(⟨"north"⟩, [⟨1, 10, .up, 0, 0, 0⟩]),
    (⟨"south"⟩, [⟨2, 4, .up, 0, 0, 0⟩, ⟨2, 5, .down, 0, 0, 0⟩])]
  journal := []

theorem afterTick_all_or_nothing_neighbours :
    neighbours.afterTick shared 0 7 = (neighbours.polled shared).signal 0 7 ∧
      ∃ id next, neighbours.afterTick doubled 0 7 = (.error (.repeatedOffer id), next) ∧
        next.registrations.map standing = neighbours.registrations.map standing := by
  have hreached : ∀ r ∈ neighbours.registrations, ∃ settings, r.participant.Reached settings := by
    intro r hr
    rcases List.mem_pair.mp hr with rfl | rfl
    · exact ⟨⟨.exhaustive, 1⟩, .tail .refl ⟨shared, .register _ _, trivial, rfl⟩⟩
    · exact ⟨⟨.exhaustive, 3⟩, .tail .refl ⟨shared, .register _ _, trivial, rfl⟩⟩
  have hshared : ∀ r ∈ neighbours.registrations, Book.Sound (r.participant.offering shared) := by
    unfold Book.Sound
    decide
  have hdoubled : ∀ r ∈ neighbours.registrations, Book.Sound (r.participant.offering doubled) := by
    unfold Book.Sound
    decide
  constructor
  · rcases afterTick_all_or_nothing neighbours shared 0 7 hreached hshared (by decide) with
      ⟨_, _, hafter, _⟩ | ⟨before, r, rest, id, hsplit, _, hr, _⟩
    · exact hafter
    · have hids : ∀ r ∈ neighbours.registrations, (offeredIds shared r).Nodup := by decide
      exact absurd (hids r (hsplit ▸ List.mem_append_right _ List.mem_cons_self)) hr.not_nodup
  · rcases afterTick_all_or_nothing neighbours doubled 0 7 hreached hdoubled (by decide) with
      ⟨hids, _⟩ | ⟨before, r, rest, id, _, _, _, hafter, hstanding⟩
    · exact absurd hids (by decide)
    · rw [hafter] at hstanding ⊢
      exact ⟨id, _, rfl, hstanding⟩

end Distributor

end DemandResponse
