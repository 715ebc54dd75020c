import DemandResponse.Proofs.Book.Filling
import DemandResponse.Proofs.Matching.Meeting

/-!
# What a matching step activates

Both strategies decide once per site and choose among its usable offers, so an outcome activates
registered sites in their order, each at most once. A book lists every id once; hence an
activated offer stands under one site only, and no two commands refer to the same id. All this
holds for any history of registrations and any history of the book, with refused calls in it.
-/

namespace DemandResponse.Matching

open BestFit (Chooses)

variable {sites : List Candidates} {selection : Selection}

namespace BestFit

/-- Every cursor of the search shows idle sites and offers of their sites, nothing beyond. -/
theorem search_within (target : Power) (sites : List Candidates) :
    ∃ visited : List (List Nat),
      best target sites = visited.foldl (challenge target sites)
        ⟨⟨Power.distance target 0, 0, []⟩, Odometer.start (sizes sites)⟩ ∧
      ∀ cursor ∈ visited, List.Forall₂ (fun k c => k ≤ c.offers.length) cursor sites := by
  obtain ⟨visited, hvisited, hbest⟩ := best_eq_foldl target sites
  refine ⟨visited, by rw [hbest, standing_start], ?_⟩
  intro cursor hc
  have hmem : cursor ∈ Odometer.cursors (sizes sites) :=
    hvisited ▸ List.mem_cons_of_mem _ hc
  exact List.forall₂_map_right_iff.mp (Odometer.mem_cursors_iff.mp hmem)

end BestFit

namespace Matcher

/-- A matcher to which sites were registered one after the other, some perhaps repeatedly. -/
def ofSites (strategy : Strategy) (sites : List SiteId) : Matcher :=
  sites.foldl (fun m site => (m.register site).2) (new strategy)

theorem register_eq (m : Matcher) (site : SiteId) :
    (m.register site).2 = ⟨m.strategy, if site ∈ m.sites then m.sites else m.sites ++ [site]⟩ := by
  unfold register
  split <;> rfl

/-- Every site keeps the place of its first registration. -/
theorem ofSites_eq (strategy : Strategy) (sites : List SiteId) :
    ofSites strategy sites = ⟨strategy, sites.eraseDups⟩ := by
  induction sites using List.reverseRecOn with
  | nil => rfl
  | append_singleton sites site ih =>
    rw [ofSites, List.foldl_append]
    change ((ofSites strategy sites).register site).2 = _
    rw [register_eq, ih, eraseDups_concat]
    simp only [List.mem_eraseDups]

theorem nodup_sites_ofSites (strategy : Strategy) (sites : List SiteId) :
    (ofSites strategy sites).sites.Nodup := by
  refine List.foldlRecOn (motive := fun m : Matcher => m.sites.Nodup) sites _ List.nodup_nil ?_
  intro m hm site _
  rw [register_eq]
  split
  · exact hm
  · next h =>
    rw [← List.concat_eq_append]
    exact hm.concat h

end Matcher

/-- What an outcome owes to the sites and the book that it was chosen from. -/
structure Outcome.Proper (sites : List SiteId) (book : Book) (outcome : Outcome) : Prop where
  /-- Sites are activated in their order. -/
  sites_sublist : (outcome.activations.map (·.site)).Sublist sites
  sites_nodup : (outcome.activations.map (·.site)).Nodup
  /-- An activated offer is on offer at its site. -/
  offered : ∀ a ∈ outcome.activations, a.offer ∈ book.offersFor a.site
  /-- Among all entries of the book it stands in that of its site and in no other. -/
  listed_iff : ∀ a ∈ outcome.activations, ∀ e ∈ book.entries, a.offer ∈ e.2 ↔ e.1 = a.site
  approaching : ∀ a ∈ outcome.activations,
    Direction.towards outcome.target = some a.offer.direction ∧ 0 < a.offer.magnitude
  commanded : ∀ a ∈ outcome.activations, a.command.reference = a.offer.id
  references_nodup : (outcome.commands.map (·.reference)).Nodup
  /-- Nothing is activated for a zero target, nor without a usable offer of a registered site. -/
  idle : (outcome.target = 0 ∨ ∀ site ∈ sites, ∀ o ∈ book.offersFor site,
    ¬ (Direction.towards outcome.target = some o.direction ∧ 0 < o.magnitude)) →
      outcome.activations = []

/-- What a matching step takes for granted: it has no answer for the case that it fails. -/
structure Matcher.Guarded (m : Matcher) (tick : Tick) (target : Power) (book : Book) : Prop where
  /-- The strategy decides exactly once per site. -/
  length_eq : ∃ selection, m.strategy.select tick target (m.candidates target book) =
    .ok selection ∧ selection.length = (m.candidates target book).length
  /-- No wheel of the search is ever beyond the offers of its site. -/
  within : ∃ visited : List (List Nat),
    BestFit.best target (m.candidates target book) =
      visited.foldl (BestFit.challenge target (m.candidates target book))
        ⟨⟨Power.distance target 0, 0, []⟩, Odometer.start (BestFit.sizes (m.candidates target book))⟩ ∧
    ∀ cursor ∈ visited,
      List.Forall₂ (fun k c => k ≤ c.offers.length) cursor (m.candidates target book)

namespace Matcher

variable {m : Matcher} {target : Power} {book : Book}

/-- An activated offer is a usable offer of its site, and the command refers to it. -/
theorem activation_eq (h : Chooses selection (m.candidates target book)) {a : Activation}
    (ha : a ∈ activations (m.candidates target book) selection) :
    (a.offer ∈ book.offersFor a.site ∧
      Direction.towards target = some a.offer.direction ∧ 0 < a.offer.magnitude) ∧
    a.command = a.offer.command := by
  obtain ⟨c, hc, o, ho, rfl⟩ := mem_activations h ha
  exact ⟨mem_offers_of_candidates hc ho, rfl⟩

/-- What is activated from a coherent book under distinct sites is as it has to be. -/
theorem proper_of_chooses (hsites : m.sites.Nodup) (hbook : book.Coherent) (tick : Tick)
    (h : Chooses selection (m.candidates target book)) :
    Outcome.Proper m.sites book
      ⟨tick, target, activations (m.candidates target book) selection⟩ := by
  have hsublist := sites_activations_sublist (m.candidates target book) selection
  rw [sites_candidates] at hsublist
  have hnodup := hsublist.nodup hsites
  refine ⟨hsublist, hnodup, fun a ha => (activation_eq h ha).1.1, ?_,
    fun a ha => (activation_eq h ha).1.2, fun a ha => ?_, ?_, ?_⟩
  · intro a ha e he
    have hoffered := (activation_eq h ha).1.1
    constructor
    · intro hlisted
      obtain ⟨offers, hentry, hmem⟩ := Book.mem_entries_of_offersFor hoffered
      have heq := (hbook.eq_of_id_eq he hentry hlisted hmem rfl).2
      rw [heq]
    · intro hsite
      obtain ⟨site, offers⟩ := e
      obtain rfl : site = a.site := hsite
      rwa [hbook.offersFor_eq he] at hoffered
  · rw [(activation_eq h ha).2]
    rfl
  · rw [Outcome.commands, List.map_map]
    refine List.Nodup.map_on ?_ (hnodup.of_map _)
    intro a ha a' ha' href
    have hid : a.offer.id = a'.offer.id := by
      rw [Function.comp_apply, Function.comp_apply, (activation_eq h ha).2,
        (activation_eq h ha').2] at href
      exact href
    obtain ⟨offers, he, ho⟩ := Book.mem_entries_of_offersFor (activation_eq h ha).1.1
    obtain ⟨offers', he', ho'⟩ := Book.mem_entries_of_offersFor (activation_eq h ha').1.1
    -- the same id is the same offer in the same entry, and an entry has one site
    have hsite := congrArg Prod.fst (hbook.eq_of_id_eq he he' ho ho' hid).2
    exact List.inj_on_of_nodup_map hnodup ha ha' hsite
  · intro hidle
    rw [List.eq_nil_iff_forall_not_mem]
    intro a ha
    obtain ⟨⟨hoffered, happroaching⟩, _⟩ := activation_eq h ha
    rcases hidle with hzero | hnone
    · obtain rfl : target = 0 := hzero
      exact nomatch happroaching.1
    · have hsite : a.site ∈ m.sites := hsublist.subset (List.mem_map_of_mem ha)
      exact hnone a.site hsite a.offer hoffered happroaching

end Matcher

/-- A matching step on any book, for any registrations, target and tick, has an outcome, and its
activations are as they have to be. -/
theorem meet_proper (strategy : Strategy) (registered : List SiteId)
    (calls : List Book.Filling) (tick : Tick) (target : Power) :
    ∃ outcome, (Matcher.ofSites strategy registered).meet tick target (Book.filled calls) =
        .ok outcome ∧
      outcome.tick = tick ∧ outcome.target = target ∧
      outcome.Proper registered.eraseDups (Book.filled calls) ∧
      (Matcher.ofSites strategy registered).Guarded tick target (Book.filled calls) := by
  obtain ⟨selection, hs, hchooses, hmeet⟩ :=
    (Matcher.ofSites strategy registered).meet_eq_activations tick target (Book.filled calls)
  have hproper := Matcher.proper_of_chooses (Matcher.nodup_sites_ofSites strategy registered)
    (Book.coherent_filled calls) tick hchooses
  rw [Matcher.ofSites_eq] at hproper
  refine ⟨_, hmeet, rfl, rfl, ?_, ?_⟩
  · rw [Matcher.ofSites_eq]
    exact hproper
  · exact ⟨⟨selection, hs, hchooses.length_eq⟩, BestFit.search_within target _⟩

end DemandResponse.Matching
