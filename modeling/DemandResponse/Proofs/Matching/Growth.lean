import DemandResponse.Proofs.Book.Record
import DemandResponse.Proofs.Matching.Dominance

/-!
# The best fit of a growing portfolio

Calls on a book only add offers, and registering only adds sites behind those that are registered.
Every choice of before is therefore a choice of after that leaves the new sites idle, with the same
offers and the same sum. Under peaks in range the best fit leads it, so it comes no farther from the
target than before, and as near only with no more activations.
-/

namespace DemandResponse.Matching

open BestFit (Chooses)

variable {sites : List Candidates} {selection : Selection} {target : Power}

/-- A choice is a choice also beside sites that stay idle. -/
theorem exists_chooses_append (h : Chooses selection sites) (others : List Candidates) :
    ∃ other, Chooses other (sites ++ others) ∧ active other = active selection := by
  have hidle : Chooses (others.map fun _ => none) others := by
    unfold Chooses
    rw [List.forall₂_map_left_iff, List.forall₂_same]
    exact fun _ _ => Or.inl rfl
  refine ⟨selection ++ others.map fun _ => none, List.rel_append h hidle, ?_⟩
  simp [active]

namespace Matcher

variable {m wide : Matcher} {first second : Book}

/-- Sites that are registered keep their places, whichever are registered after them. -/
theorem sites_ofSites_append (strategy : Strategy) (registered more : List SiteId) :
    (ofSites strategy registered).sites <+: (ofSites strategy (registered ++ more)).sites := by
  rw [ofSites_eq, ofSites_eq, List.eraseDups_append]
  exact List.prefix_append _ _

/-- With more sites and more offers, every choice of before can still be made. -/
theorem exists_chooses_grown (hsites : m.sites <+: wide.sites)
    (hoffers : ∀ site ∈ m.sites, first.offersFor site ⊆ second.offersFor site)
    (h : Chooses selection (m.candidates target first)) :
    ∃ other, Chooses other (wide.candidates target second) ∧ active other = active selection := by
  obtain ⟨more, hmore⟩ := hsites
  have hcandidates : wide.candidates target second =
      m.candidates target second ++ candidates ⟨wide.strategy, more⟩ target second := by
    rw [candidates, ← hmore]
    exact List.map_append
  rw [hcandidates]
  exact exists_chooses_append (chooses_of_subset hoffers h) _

end Matcher

/-- When more sites are registered and the book is filled further, the outcome of the exhaustive
strategy comes no farther from the target, and where it is as near it activates no more sites. Only
the peaks after the growth need to be in range: the sums of before are then as well, and both
outcomes evaluate without a fault. A further call may break off, what it added until then is part of
the growth. -/
theorem meet_grown (registered more : List SiteId) (calls further : List Book.Filling) (tick : Tick)
    (target : Power)
    (hpeaks : combinedPeak ((Matcher.ofSites .exhaustive (registered ++ more)).candidates target
      (Book.filled (calls ++ further))) ≤ Power.greatest) :
    ∃ narrow wide farther nearer,
      (Matcher.ofSites .exhaustive registered).meet tick target (Book.filled calls) =
        .ok narrow ∧
      (Matcher.ofSites .exhaustive (registered ++ more)).meet tick target
        (Book.filled (calls ++ further)) = .ok wide ∧
      narrow.deviation = .ok farther ∧ wide.deviation = .ok nearer ∧ nearer ≤ farther ∧
      (nearer = farther → wide.activations.length ≤ narrow.activations.length) := by
  have hsites := Matcher.sites_ofSites_append .exhaustive registered more
  have hoffers : ∀ site ∈ (Matcher.ofSites .exhaustive registered).sites,
      (Book.filled calls).offersFor site ⊆ (Book.filled (calls ++ further)).offersFor site :=
    fun site _ => (Book.offersFor_filled_append calls further site).subset
  obtain ⟨narrow, selection, hnarrow, htarget, hvalued, _, hchooses, hchosen⟩ :=
    Matcher.meet_eq_chosen (Matcher.ofSites .exhaustive registered) tick target
      (Book.filled calls)
  obtain ⟨other, hother, hsame⟩ := Matcher.exists_chooses_grown hsites hoffers hchooses
  obtain ⟨way, hway⟩ := Matcher.oneWay_candidates
    (Matcher.ofSites .exhaustive (registered ++ more)) target (Book.filled (calls ++ further))
  have hrange : Power.InRange narrow.exactSum := by
    rw [Outcome.exactSum, hchosen, ← hsame]
    exact inRange_of_combinedPeak hway hpeaks hother
  rw [Matcher.ofSites_eq .exhaustive (registered ++ more)] at hpeaks hother ⊢
  obtain ⟨wide, hwide, htarget', hvalued', hrange', hbest⟩ := Matcher.meet_leads tick hpeaks
  -- the wide outcome leads the narrow one, which is still among its choices
  have hleads := hbest other hother
  rw [hsame, ← hchosen] at hleads
  simp only [Leads, Outcome.exactSum_offers, List.length_map] at hleads
  refine ⟨narrow, wide, _, _, hnarrow, hwide, (hvalued.exact hrange).2.1,
    (hvalued'.exact hrange').2.1, ?_, ?_⟩
  · rw [htarget, htarget']
    omega
  · rw [htarget, htarget']
    omega

/-- The target is reached by two sites together, and after the growth by a new one alone. One site
is registered again, and one further call is refused, as it repeats an id. -/
theorem meet_grown_relieved :
    combinedPeak ((Matcher.ofSites .exhaustive
        ([⟨"north"⟩, ⟨"south"⟩] ++ [⟨"north"⟩, ⟨"east"⟩])).candidates 10
      (Book.filled (pairCalls ⟨1, 4, .up, 0, 0, 0⟩ ⟨2, 6, .up, 0, 0, 0⟩ ++
        [.extend ⟨"east"⟩ [⟨3, 10, .up, 0, 0, 0⟩, ⟨1, 9, .up, 0, 0, 0⟩]]))) ≤ Power.greatest ∧
      ∃ narrow wide farther nearer,
        (Matcher.ofSites .exhaustive [⟨"north"⟩, ⟨"south"⟩]).meet 0 10
          (Book.filled (pairCalls ⟨1, 4, .up, 0, 0, 0⟩ ⟨2, 6, .up, 0, 0, 0⟩)) = .ok narrow ∧
        (Matcher.ofSites .exhaustive
            ([⟨"north"⟩, ⟨"south"⟩] ++ [⟨"north"⟩, ⟨"east"⟩])).meet 0 10
          (Book.filled (pairCalls ⟨1, 4, .up, 0, 0, 0⟩ ⟨2, 6, .up, 0, 0, 0⟩ ++
            [.extend ⟨"east"⟩ [⟨3, 10, .up, 0, 0, 0⟩, ⟨1, 9, .up, 0, 0, 0⟩]])) = .ok wide ∧
        narrow.deviation = .ok farther ∧ wide.deviation = .ok nearer ∧ nearer ≤ farther ∧
        (nearer = farther → wide.activations.length ≤ narrow.activations.length) := by
  have hpeaks : combinedPeak ((Matcher.ofSites .exhaustive
        ([⟨"north"⟩, ⟨"south"⟩] ++ [⟨"north"⟩, ⟨"east"⟩])).candidates 10
      (Book.filled (pairCalls ⟨1, 4, .up, 0, 0, 0⟩ ⟨2, 6, .up, 0, 0, 0⟩ ++
        [.extend ⟨"east"⟩ [⟨3, 10, .up, 0, 0, 0⟩, ⟨1, 9, .up, 0, 0, 0⟩]]))) ≤
      Power.greatest := by
    decide +kernel
  exact ⟨hpeaks, meet_grown _ _ _ _ 0 10 hpeaks⟩

end DemandResponse.Matching
