import DemandResponse.Proofs.Matching.Activations
import DemandResponse.Proofs.Matching.Evaluation
import Mathlib.Data.List.Perm.Basic

/-!
# The best fit under another order of registration

Which of several equally good combinations the best fit finds depends on the order in which the
sites were registered, but not how good it is. A combination for some sites becomes one for the
same sites in another order by moving its decisions along, and the offers in it stay the same. As
usable offers all go in one direction, a running total depends on nothing but their exact sum.
-/

namespace DemandResponse.Matching

open BestFit (Chooses)

variable {sites others : List Candidates} {selection moved : Selection} {way : Direction}
  {target : Power} {tick : Tick}

theorem exactSum_perm {offers rest : List Offer} (h : offers.Perm rest) :
    exactSum offers = exactSum rest := by
  induction h with
  | nil => rfl
  | cons o _ ih => rw [exactSum_cons, exactSum_cons, ih]
  | swap o x rest =>
    simp only [exactSum_cons]
    omega
  | trans _ _ ih ih' => exact ih.trans ih'

theorem active_perm (h : selection.Perm moved) : (active selection).Perm (active moved) :=
  h.filterMap id

/-- The running total of a choice depends on its exact sum alone. -/
theorem total_of_chooses (h : Chooses selection sites) (hway : ∀ c ∈ sites, OneWay way c.offers) :
    total (active selection) = Power.clamp (exactSum (active selection)) :=
  total_eq (oneWay_active h hway)

namespace BestFit

/-- The decisions move along with their sites. -/
theorem Chooses.perm (h : Chooses selection sites) (hsites : sites.Perm others) :
    ∃ moved, selection.Perm moved ∧ Chooses moved others := by
  obtain ⟨moved, hmoved, hperm⟩ := List.perm_comp_forall₂ hsites.symm (List.Forall₂.flip h)
  exact ⟨moved, hperm.symm, hmoved.flip⟩

/-- Up to its ids, a choice is ranked as it was before it was moved. -/
theorem rank_perm (hway : ∀ c ∈ sites, OneWay way c.offers) (hsites : sites.Perm others)
    (h : Chooses selection sites) (hmoved : Chooses moved others) (hperm : selection.Perm moved) :
    (rank target moved).deviation = (rank target selection).deviation ∧
      (rank target moved).active = (rank target selection).active := by
  have hway' : ∀ c ∈ others, OneWay way c.offers := fun c hc => hway c (hsites.mem_iff.mpr hc)
  constructor
  · change Power.distance target (total _) = Power.distance target (total _)
    rw [total_of_chooses h hway, total_of_chooses hmoved hway', exactSum_perm (active_perm hperm)]
  · exact (active_perm hperm).length_eq.symm

/-- The best fit among some sites is at least as near as the best fit among the same sites in
another order, and if it is as near it activates no more of them. -/
theorem weight_le_of_perm (hway : ∀ c ∈ sites, OneWay way c.offers) (hsites : sites.Perm others)
    {other : Selection} (hselect : Strategy.exhaustive.select tick target sites = .ok selection)
    (hother : Chooses other others) :
    (rank target selection).deviation < (rank target other).deviation ∨
      (rank target selection).deviation = (rank target other).deviation ∧
        (rank target selection).active ≤ (rank target other).active := by
  have hway' : ∀ c ∈ others, OneWay way c.offers := fun c hc => hway c (hsites.mem_iff.mpr hc)
  obtain ⟨moved, hperm, hmoved⟩ := hother.perm hsites.symm
  obtain ⟨hdeviation, hactive⟩ :=
    @rank_perm _ _ _ _ _ target hway' hsites.symm hother hmoved hperm
  have hunbeaten := unbeaten_of_select (inRange_of_oneWay hway) hselect hmoved
  unfold Ahead Ranking.Before at hunbeaten
  omega

end BestFit

namespace Matcher

theorem sites_perm {registered reordered : List SiteId}
    (hsites : ∀ site, site ∈ registered ↔ site ∈ reordered) :
    (ofSites .exhaustive registered).sites.Perm (ofSites .exhaustive reordered).sites := by
  rw [List.perm_ext_iff_of_nodup (nodup_sites_ofSites _ _) (nodup_sites_ofSites _ _), ofSites_eq,
    ofSites_eq]
  simpa only [List.mem_eraseDups] using hsites

theorem strategy_ofSites (strategy : Strategy) (registered : List SiteId) :
    (ofSites strategy registered).strategy = strategy := by
  rw [ofSites_eq]

end Matcher

/-- Two matchers that follow the exhaustive strategy among the same sites answer outcomes of the
same quality, in whatever order the sites were registered: with as many activations, and with sums
that, brought into the range, are equally far from the target. -/
theorem meet_reordered (registered reordered : List SiteId)
    (hsites : ∀ site, site ∈ registered ↔ site ∈ reordered) (book : Book) (tick : Tick)
    (target : Power) :
    ∃ one other, (Matcher.ofSites .exhaustive registered).meet tick target book = .ok one ∧
      (Matcher.ofSites .exhaustive reordered).meet tick target book = .ok other ∧
      one.activations.length = other.activations.length ∧
      Power.distance target (Power.clamp one.exactSum) =
        Power.distance target (Power.clamp other.exactSum) := by
  have hperm : ((Matcher.ofSites .exhaustive registered).candidates target book).Perm
      ((Matcher.ofSites .exhaustive reordered).candidates target book) :=
    (Matcher.sites_perm hsites).map _
  obtain ⟨way, hway⟩ := (Matcher.ofSites .exhaustive registered).oneWay_candidates target book
  have hway' : ∀ c ∈ (Matcher.ofSites .exhaustive reordered).candidates target book,
      OneWay way c.offers := fun c hc => hway c (hperm.mem_iff.mpr hc)
  obtain ⟨one, selection, hone, _, _, hselect, hchooses, hoffers⟩ :=
    (Matcher.ofSites .exhaustive registered).meet_eq_chosen tick target book
  obtain ⟨other, selection', hother, _, _, hselect', hchooses', hoffers'⟩ :=
    (Matcher.ofSites .exhaustive reordered).meet_eq_chosen tick target book
  rw [Matcher.strategy_ofSites] at hselect hselect'
  have hle := BestFit.weight_le_of_perm hway hperm hselect hchooses'
  have hge := BestFit.weight_le_of_perm hway' hperm.symm hselect' hchooses
  have hactive : (BestFit.rank target selection).active = (BestFit.rank target selection').active := by
    omega
  have hdeviation : Power.distance target (total (active selection)) =
      Power.distance target (total (active selection')) := by
    change (BestFit.rank target selection).deviation = (BestFit.rank target selection').deviation
    omega
  rw [total_of_chooses hchooses hway, total_of_chooses hchooses' hway'] at hdeviation
  refine ⟨one, other, hone, hother, ?_, ?_⟩
  · have hlength := congrArg List.length hoffers
    have hlength' := congrArg List.length hoffers'
    rw [List.length_map] at hlength hlength'
    rw [hlength, hlength']
    exact hactive
  · rw [Outcome.exactSum, Outcome.exactSum, hoffers, hoffers']
    exact hdeviation

/-- Two sites that make up 5 in two ways, of 3 and 2 or of 2 and 3. -/
def crossed : Book :=
  Book.filled [.extend ⟨"north"⟩ [⟨1, 3, .up, 0, 0, 0⟩, ⟨2, 2, .up, 0, 0, 0⟩],
    .extend ⟨"south"⟩ [⟨3, 3, .up, 0, 0, 0⟩, ⟨4, 2, .up, 0, 0, 0⟩]]

theorem meet_reordered_crossed :
    (∀ site : SiteId, site ∈ [(⟨"north"⟩ : SiteId), ⟨"south"⟩] ↔
        site ∈ [(⟨"south"⟩ : SiteId), ⟨"north"⟩, ⟨"south"⟩]) ∧
      ∃ one other,
        (Matcher.ofSites .exhaustive [⟨"north"⟩, ⟨"south"⟩]).meet 0 5 crossed = .ok one ∧
        (Matcher.ofSites .exhaustive [⟨"south"⟩, ⟨"north"⟩, ⟨"south"⟩]).meet 0 5 crossed =
          .ok other ∧
        one.activations.length = other.activations.length ∧
        Power.distance 5 (Power.clamp one.exactSum) =
          Power.distance 5 (Power.clamp other.exactSum) := by
  have hsites : ∀ site : SiteId, site ∈ [(⟨"north"⟩ : SiteId), ⟨"south"⟩] ↔
      site ∈ [(⟨"south"⟩ : SiteId), ⟨"north"⟩, ⟨"south"⟩] := by
    intro site
    simp only [List.mem_cons, List.not_mem_nil, or_false]
    tauto
  exact ⟨hsites, meet_reordered _ _ hsites crossed 0 5⟩

/-- Ids are compared in the order of the sites, so the two ways change places with them. -/
example :
    let book := Book.filled [.extend ⟨"north"⟩ [⟨1, 3, .up, 0, 0, 0⟩, ⟨2, 2, .up, 0, 0, 0⟩],
      .extend ⟨"south"⟩ [⟨3, 3, .up, 0, 0, 0⟩, ⟨4, 2, .up, 0, 0, 0⟩]]
    ((Matcher.ofSites .exhaustive [⟨"north"⟩, ⟨"south"⟩]).meet 0 5 book).map
        (·.commands.map (·.reference)) = .ok [1, 4] ∧
      ((Matcher.ofSites .exhaustive [⟨"south"⟩, ⟨"north"⟩]).meet 0 5 book).map
        (·.commands.map (·.reference)) = .ok [3, 2] := by
  decide +kernel

end DemandResponse.Matching
