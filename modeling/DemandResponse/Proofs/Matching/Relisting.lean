import DemandResponse.Proofs.Matching.Activations
import DemandResponse.Proofs.Matching.Evaluation

/-!
# The best fit does not depend on the order of the listing

A book lists every id once, so the ids of a choice tell which offers were chosen and where. No two
choices are then ranked alike: the best fit is ranked strictly before every other choice, and is
found wherever it stands in the search. Two books that list the same offers at every registered
site, in whatever order, leave the same choices and have the same outcome.
-/

namespace DemandResponse.Matching

/-- Of two rankings that differ one is before the other. -/
theorem Ranking.eq_of_not_before {a b : Ranking} (h : ¬ a.Before b) (h' : ¬ b.Before a) :
    a = b := by
  obtain ⟨deviation, active, ids⟩ := a
  obtain ⟨deviation', active', ids'⟩ := b
  unfold Before at h h'
  dsimp only at h h'
  obtain rfl : deviation = deviation' := by omega
  obtain rfl : active = active' := by omega
  have hle : ids' ≤ ids := List.not_lt.mp fun hlt => h (Or.inr ⟨rfl, Or.inr ⟨rfl, hlt⟩⟩)
  have hge : ids ≤ ids' := List.not_lt.mp fun hlt => h' (Or.inr ⟨rfl, Or.inr ⟨rfl, hlt⟩⟩)
  rw [List.le_antisymm hge hle]

namespace BestFit

variable {sites : List Candidates} {c : Candidates} {selection other : Selection} {target : Power}
  {tick : Tick}

/-- Sites with distinct names, and offers that are told by their ids together with their sites. -/
structure Identified (sites : List Candidates) : Prop where
  nodup : (sites.map (·.site)).Nodup
  eq_of_id_eq : ∀ c ∈ sites, ∀ d ∈ sites, ∀ o ∈ c.offers, ∀ x ∈ d.offers, o.id = x.id →
    c.site = d.site ∧ o = x

theorem Identified.tail (h : Identified (c :: sites)) : Identified sites where
  nodup := (List.nodup_cons.mp h.nodup).2
  eq_of_id_eq d hd e he :=
    h.eq_of_id_eq d (List.mem_cons_of_mem c hd) e (List.mem_cons_of_mem c he)

/-- An id that is chosen is the id of an offer of one of the sites. -/
theorem exists_offer_of_chosen (h : Chooses selection sites) {id : Int64}
    (hid : id ∈ (active selection).map (·.id)) : ∃ d ∈ sites, ∃ x ∈ d.offers, x.id = id := by
  obtain ⟨x, hx, rfl⟩ := List.mem_map.mp hid
  rw [← Matcher.offers_activations h] at hx
  obtain ⟨a, ha, rfl⟩ := List.mem_map.mp hx
  obtain ⟨d, hd, o, ho, rfl⟩ := Matcher.mem_activations h ha
  exact ⟨d, hd, o, ho, rfl⟩

/-- The id of an offer of the first site is not chosen at the others. -/
theorem Identified.not_mem_chosen (h : Identified (c :: sites)) {o : Offer} (ho : o ∈ c.offers)
    (hchooses : Chooses selection sites) : o.id ∉ (active selection).map (·.id) := by
  intro hid
  obtain ⟨d, hd, x, hx, heq⟩ := exists_offer_of_chosen hchooses hid
  have hsite := (h.eq_of_id_eq c List.mem_cons_self d (List.mem_cons_of_mem c hd) o ho x hx
    heq.symm).1
  have hmem : d.site ∈ sites.map (·.site) := List.mem_map_of_mem hd
  rw [← hsite] at hmem
  exact (List.nodup_cons.mp h.nodup).1 hmem

/-- A choice is told by the ids of its offers. -/
theorem Identified.eq_of_ids_eq (h : Identified sites) (hchooses : Chooses selection sites)
    (hother : Chooses other sites)
    (heq : (active selection).map (·.id) = (active other).map (·.id)) : selection = other := by
  induction hchooses generalizing other with
  | nil => exact (List.forall₂_nil_right_iff.mp hother).symm
  | @cons decision c selection sites hd hrest ih =>
    obtain ⟨decision', others, hd', hrest', rfl⟩ := List.forall₂_cons_right_iff.mp hother
    rcases hd with rfl | ⟨o, ho, rfl⟩ <;> rcases hd' with rfl | ⟨x, hx, rfl⟩
    · exact congrArg (none :: ·) (ih h.tail hrest' heq)
    · have hchosen : x.id ∈ (active selection).map (·.id) := by
        show x.id ∈ (active (none :: selection)).map (·.id)
        rw [heq]
        exact List.mem_cons_self
      exact absurd hchosen (h.not_mem_chosen hx hrest)
    · have hchosen : o.id ∈ (active others).map (·.id) := by
        show o.id ∈ (active (none :: others)).map (·.id)
        rw [← heq]
        exact List.mem_cons_self
      exact absurd hchosen (h.not_mem_chosen ho hrest')
    · obtain ⟨hid, hids⟩ := List.cons.inj heq
      obtain rfl :=
        (h.eq_of_id_eq c List.mem_cons_self c List.mem_cons_self o ho x hx hid).2
      rw [ih h.tail hrest' hids]

/-- Choices of which neither is ranked before the other are the same. -/
theorem Identified.eq_of_not_ahead (h : Identified sites) (hchooses : Chooses selection sites)
    (hother : Chooses other sites) (hnot : ¬ Ahead target selection other)
    (hnot' : ¬ Ahead target other selection) : selection = other :=
  h.eq_of_ids_eq hchooses hother (congrArg Ranking.ids (Ranking.eq_of_not_before hnot hnot'))

/-- The one choice that is ranked strictly before all others. -/
structure Sole (target : Power) (sites : List Candidates) (selection : Selection) : Prop where
  chooses : Chooses selection sites
  ahead : ∀ other, Chooses other sites → other ≠ selection → Ahead target selection other

theorem Identified.sole_of_select (h : Identified sites)
    (hrange : ∀ d ∈ sites, ∀ o ∈ d.offers, Power.InRange o.signedMagnitude)
    (hselect : Strategy.exhaustive.select tick target sites = .ok selection)
    (hchooses : Chooses selection sites) : Sole target sites selection := by
  refine ⟨hchooses, fun other hother hne => ?_⟩
  by_contra hnot
  have hunbeaten := unbeaten_of_select hrange hselect hother
  exact hne (h.eq_of_not_ahead hother hchooses hunbeaten hnot)

/-- Sites that leave the same choices have the same sole best one. -/
theorem Sole.eq {others : List Candidates} (h : Sole target sites selection)
    (hother : Sole target others other) (hchooses : Chooses selection others)
    (hchooses' : Chooses other sites) : selection = other := by
  by_contra hne
  have hahead := h.ahead other hchooses' (Ne.symm hne)
  exact Ranking.before_asymm hahead (hother.ahead selection hchooses hne)

end BestFit

namespace Matcher

open BestFit (Identified)

variable {m : Matcher} {target : Power}

/-- Ids tell the candidates of a coherent book apart. -/
theorem identified_candidates (hsites : m.sites.Nodup) {book : Book} (hbook : book.Coherent) :
    Identified (m.candidates target book) where
  nodup := by rwa [sites_candidates]
  eq_of_id_eq := by
    intro c hc d hd o ho x hx hid
    obtain ⟨offers, he, ho⟩ := Book.mem_entries_of_offersFor (mem_offers_of_candidates hc ho).1
    obtain ⟨offers', he', hx⟩ := Book.mem_entries_of_offersFor (mem_offers_of_candidates hd hx).1
    obtain ⟨heq, hentry⟩ := hbook.eq_of_id_eq he he' ho hx hid
    exact ⟨congrArg Prod.fst hentry, heq⟩

/-- The order in which a site lists its offers has no part in an activation. -/
theorem activations_candidates (m : Matcher) (target : Power) (first second : Book)
    (selection : Selection) :
    activations (m.candidates target first) selection =
      activations (m.candidates target second) selection := by
  simp only [activations, candidates, List.zipWith_map_left]
  rfl

end Matcher

open BestFit (Sole)

/-- The outcome of the exhaustive strategy is that of the one choice which is ranked strictly before
all others, and it is the same for any two books that list the same offers at the registered sites:
neither the order of the offers at a site nor the order in which a book was filled has a part in
it. -/
theorem meet_relisted (registered : List SiteId) (calls others : List Book.Filling)
    (hsame : ∀ site ∈ registered,
      ((Book.filled calls).offersFor site).Perm ((Book.filled others).offersFor site))
    (tick : Tick) (target : Power) :
    ∃ outcome selection,
      (Matcher.ofSites .exhaustive registered).meet tick target (Book.filled calls) =
        .ok outcome ∧
      (Matcher.ofSites .exhaustive registered).meet tick target (Book.filled others) =
        .ok outcome ∧
      (∀ book ∈ [Book.filled calls, Book.filled others],
        outcome.activations = Matcher.activations
          ((Matcher.ofSites .exhaustive registered).candidates target book) selection ∧
        Sole target ((Matcher.ofSites .exhaustive registered).candidates target book)
          selection) := by
  have hnodup := Matcher.nodup_sites_ofSites .exhaustive registered
  rw [Matcher.ofSites_eq] at hnodup ⊢
  have hsole : ∀ calls : List Book.Filling, ∃ selection,
      Sole target (Matcher.candidates ⟨.exhaustive, registered.eraseDups⟩ target
        (Book.filled calls)) selection ∧
      Matcher.meet ⟨.exhaustive, registered.eraseDups⟩ tick target (Book.filled calls) =
        .ok ⟨tick, target, Matcher.activations (Matcher.candidates
          ⟨.exhaustive, registered.eraseDups⟩ target (Book.filled calls)) selection⟩ := by
    intro calls
    obtain ⟨selection, hselect, hchooses, hmeet⟩ := Matcher.meet_eq_activations
      ⟨.exhaustive, registered.eraseDups⟩ tick target (Book.filled calls)
    have hidentified := @Matcher.identified_candidates _ target hnodup _
      (Book.coherent_filled calls)
    exact ⟨selection, hidentified.sole_of_select inRange_of_candidates hselect hchooses, hmeet⟩
  obtain ⟨selection, hone, hmeet⟩ := hsole calls
  obtain ⟨other, htwo, hmeet'⟩ := hsole others
  have hsites : ∀ site ∈ registered.eraseDups,
      ((Book.filled calls).offersFor site).Perm ((Book.filled others).offersFor site) :=
    fun site hsite => hsame site (List.mem_eraseDups.mp hsite)
  obtain rfl := hone.eq htwo
    (Matcher.chooses_of_subset (fun site hsite => (hsites site hsite).subset) hone.chooses)
    (Matcher.chooses_of_subset (fun site hsite => (hsites site hsite).symm.subset) htwo.chooses)
  rw [Matcher.activations_candidates _ target (Book.filled others) (Book.filled calls)] at hmeet'
  refine ⟨_, selection, hmeet, hmeet', fun book hbook => ?_⟩
  rcases List.mem_pair.mp hbook with rfl | rfl
  · exact ⟨rfl, hone⟩
  · exact ⟨Matcher.activations_candidates _ target _ _ selection, htwo⟩

/-- Two sites that make up 5 in two ways, listed once and listed the other way round. In the second
book an offer was refused, as its id is known. -/
def shelved : List Book.Filling :=
  [.extend ⟨"north"⟩ [⟨1, 3, .up, 0, 0, 0⟩, ⟨2, 2, .up, 0, 0, 0⟩],
    .extend ⟨"south"⟩ [⟨3, 3, .up, 0, 0, 0⟩, ⟨4, 2, .up, 0, 0, 0⟩]]

def reshelved : List Book.Filling :=
  [.add ⟨"south"⟩ ⟨4, 2, .up, 0, 0, 0⟩, .add ⟨"north"⟩ ⟨2, 2, .up, 0, 0, 0⟩,
    .extend ⟨"south"⟩ [⟨3, 3, .up, 0, 0, 0⟩, ⟨2, 9, .up, 0, 0, 0⟩],
    .add ⟨"north"⟩ ⟨1, 3, .up, 0, 0, 0⟩]

theorem meet_relisted_shelved :
    (∀ site ∈ [(⟨"south"⟩ : SiteId), ⟨"north"⟩],
        ((Book.filled shelved).offersFor site).Perm ((Book.filled reshelved).offersFor site)) ∧
      ∃ outcome selection,
        (Matcher.ofSites .exhaustive [⟨"south"⟩, ⟨"north"⟩]).meet 0 5 (Book.filled shelved) =
          .ok outcome ∧
        (Matcher.ofSites .exhaustive [⟨"south"⟩, ⟨"north"⟩]).meet 0 5 (Book.filled reshelved) =
          .ok outcome ∧
        (∀ book ∈ [Book.filled shelved, Book.filled reshelved],
          outcome.activations = Matcher.activations
            ((Matcher.ofSites .exhaustive [⟨"south"⟩, ⟨"north"⟩]).candidates 5 book) selection ∧
          Sole 5 ((Matcher.ofSites .exhaustive [⟨"south"⟩, ⟨"north"⟩]).candidates 5 book)
            selection) := by
  have hsame : ∀ site ∈ [(⟨"south"⟩ : SiteId), ⟨"north"⟩],
      ((Book.filled shelved).offersFor site).Perm ((Book.filled reshelved).offersFor site) := by
    decide +kernel
  exact ⟨hsame, meet_relisted _ shelved reshelved hsame 0 5⟩

end DemandResponse.Matching
