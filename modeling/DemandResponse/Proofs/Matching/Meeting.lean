import DemandResponse.Matching.Matcher
import DemandResponse.Proofs.Matching.BestFit

/-!
# Matching always answers

Usable offers have a positive magnitude, so their contributions are in range whatever the book
holds, and no strategy can fault on them. What is activated belongs to registered sites.
-/

namespace DemandResponse.Matching

open BestFit (Chooses)

variable {sites : List Candidates} {selection : Selection}

/-- An offer is usable if it approaches the target and is not empty. -/
theorem mem_usable_iff {target : Power} {offers : List Offer} {o : Offer} :
    o ∈ usable target offers ↔
      o ∈ offers ∧ Direction.towards target = some o.direction ∧ 0 < o.magnitude := by
  unfold usable
  split
  · next way hway =>
    rw [List.mem_filter, decide_eq_true_iff, hway, Option.some.injEq, eq_comm (a := o.direction)]
  · next hnone =>
    rw [hnone]
    simp

theorem usable_subset {target : Power} {offers more : List Offer} (h : offers ⊆ more) :
    usable target offers ⊆ usable target more := fun _ ho =>
  mem_usable_iff.mpr ((mem_usable_iff.mp ho).imp_left fun hmem => h hmem)

/-- A magnitude that is not negative can be taken in either direction. -/
theorem inRange_signedMagnitude {o : Offer} (h : 0 ≤ o.magnitude) :
    Power.InRange o.signedMagnitude := by
  have hlo : 0 ≤ o.magnitude.toInt := Int64.le_iff_toInt_le.mp h
  have hhi := Int64.toInt_lt o.magnitude
  unfold Offer.signedMagnitude Power.InRange Power.least Power.greatest
  cases o.direction <;> simp only [Direction.sign] <;> omega

theorem mem_candidates {m : Matcher} {target : Power} {book : Book} {c : Candidates}
    (h : c ∈ m.candidates target book) :
    c.site ∈ m.sites ∧ c.offers = usable target (book.offersFor c.site) := by
  obtain ⟨site, hs, rfl⟩ := List.mem_map.mp h
  exact ⟨hs, rfl⟩

theorem inRange_of_candidates {m : Matcher} {target : Power} {book : Book} :
    ∀ c ∈ m.candidates target book, ∀ o ∈ c.offers, Power.InRange o.signedMagnitude := by
  intro c hc o ho
  rw [(mem_candidates hc).2] at ho
  exact inRange_signedMagnitude (Int64.le_of_lt (mem_usable_iff.mp ho).2.2)

/-- The representative of a site is one of its offers. -/
theorem Horizon.mem_of_nearest {tick : Tick} {offers : List Offer} {o : Offer}
    (h : nearest tick offers = some o) : o ∈ offers := by
  cases offers with
  | nil => cases h
  | cons first rest =>
    obtain rfl := Option.some.inj h
    refine List.foldlRecOn rest _ List.mem_cons_self ?_
    intro best hbest x hx
    split
    · exact List.mem_cons_of_mem first hx
    · exact hbest

/-- Representatives are offers of their sites, and in range with them. -/
theorem Horizon.inRange_representatives {tick : Tick} {sites : List Candidates}
    (h : ∀ c ∈ sites, ∀ o ∈ c.offers, Power.InRange o.signedMagnitude) :
    ∀ o ∈ active (sites.map fun c => nearest tick c.offers), Power.InRange o.signedMagnitude := by
  intro o ho
  obtain ⟨_, hd, rfl⟩ := List.mem_filterMap.mp ho
  obtain ⟨c, hc, hn⟩ := List.mem_map.mp hd
  exact h c hc o (mem_of_nearest hn)

theorem Horizon.select_eq_ok {tick : Tick} {target : Power} {sites : List Candidates}
    (h : ∀ c ∈ sites, ∀ o ∈ c.offers, Power.InRange o.signedMagnitude) :
    select tick target sites =
      .ok (accept target (sites.map fun c => nearest tick c.offers)) := by
  rw [select, if_pos]
  rw [List.all_eq_true]
  intro o ho
  rw [Offer.contribution_eq_ok_iff.mpr (Power.toInt_clamp (inRange_representatives h o ho))]
  rfl

namespace BestFit

/-- What the search ends at is the first of the best combinations. -/
theorem firstBest_shown (target : Power) (sites : List Candidates) :
    FirstBest (Ahead target) (combinations sites) (shown sites (best target sites).cursor) := by
  rw [← map_shown_cursors]
  exact @FirstBest.map _ _ (Ahead target) _ _ _ (firstBest_best target sites)

/-- No choice is ranked before the one that the exhaustive strategy answers. -/
theorem unbeaten_of_select {tick : Tick} {target : Power} {other : Selection}
    (h : ∀ c ∈ sites, ∀ o ∈ c.offers, Power.InRange o.signedMagnitude)
    (hselect : Strategy.exhaustive.select tick target sites = .ok selection)
    (hother : Chooses other sites) : ¬ Ahead target other selection := by
  obtain rfl := Except.ok.inj ((select_eq_ok h).symm.trans hselect)
  exact (firstBest_shown target sites).unbeaten (Ranking.strictRanking.comap (rank target))
    (mem_combinations_iff.mpr hother)

end BestFit

/-- The pass decides once per site, for its representative or for none. -/
theorem Horizon.chooses_accept (tick : Tick) (rest : Power) (sites : List Candidates) :
    Chooses (accept rest (sites.map fun c => nearest tick c.offers)) sites := by
  induction sites generalizing rest with
  | nil => exact .nil
  | cons c sites ih =>
    rw [List.map_cons]
    cases hn : nearest tick c.offers with
    | none => exact .cons (Or.inl rfl) (ih rest)
    | some o =>
      rw [accept]
      split
      · exact .cons (Or.inr ⟨o, mem_of_nearest hn, rfl⟩) (ih _)
      · exact .cons (Or.inl rfl) (ih rest)

/-- With contributions in range either strategy decides once per site, among its offers. -/
theorem Strategy.select_chooses (strategy : Strategy) (tick : Tick) (target : Power)
    (h : ∀ c ∈ sites, ∀ o ∈ c.offers, Power.InRange o.signedMagnitude) :
    ∃ selection, strategy.select tick target sites = .ok selection ∧ Chooses selection sites := by
  cases strategy with
  | exhaustive =>
    exact ⟨_, BestFit.select_eq_ok h,
      BestFit.mem_combinations_iff.mp (BestFit.firstBest_shown target sites).mem⟩
  | movingHorizon => exact ⟨_, Horizon.select_eq_ok h, Horizon.chooses_accept tick target sites⟩

namespace Matcher

/-- The activations of a selection. -/
def activations (sites : List Candidates) (selection : Selection) : List Activation :=
  (List.zipWith activation sites selection).filterMap id

theorem activations_cons_some (c : Candidates) (o : Offer) (sites : List Candidates)
    (selection : Selection) :
    activations (c :: sites) (some o :: selection) =
      ⟨c.site, o, o.command⟩ :: activations sites selection := rfl

theorem sites_activations_sublist (sites : List Candidates) (selection : Selection) :
    ((activations sites selection).map (·.site)).Sublist (sites.map (·.site)) := by
  induction sites generalizing selection with
  | nil => exact List.Sublist.refl []
  | cons c sites ih =>
    match selection with
    | [] => exact List.nil_sublist _
    | none :: selection => exact (ih selection).cons c.site
    | some o :: selection => exact (ih selection).cons_cons c.site

/-- What is activated are the offers that were chosen. -/
theorem offers_activations (h : Chooses selection sites) :
    (activations sites selection).map (·.offer) = active selection := by
  induction h with
  | nil => rfl
  | @cons decision c selection sites _ _ ih =>
    cases decision with
    | none => exact ih
    | some o => exact congrArg (o :: ·) ih

/-- An activation belongs to a site and refers to one of its offers. -/
theorem mem_activations (h : Chooses selection sites) {a : Activation}
    (ha : a ∈ activations sites selection) :
    ∃ c ∈ sites, ∃ o ∈ c.offers, a = ⟨c.site, o, o.command⟩ := by
  induction h with
  | nil => cases ha
  | @cons decision c selection sites hd _ ih =>
    have hrest : a ∈ activations sites selection →
        ∃ d ∈ c :: sites, ∃ o ∈ d.offers, a = ⟨d.site, o, o.command⟩ := by
      intro ha
      obtain ⟨d, hd, ho⟩ := ih ha
      exact ⟨d, List.mem_cons_of_mem c hd, ho⟩
    rcases hd with rfl | ⟨o, ho, rfl⟩
    · exact hrest ha
    · rw [activations_cons_some] at ha
      rcases List.mem_cons.mp ha with rfl | ha
      · exact ⟨c, List.mem_cons_self, o, ho, rfl⟩
      · exact hrest ha

theorem sites_candidates (m : Matcher) (target : Power) (book : Book) :
    (m.candidates target book).map (·.site) = m.sites := by
  rw [candidates, List.map_map]
  exact List.map_id m.sites

theorem mem_offers_of_candidates {m : Matcher} {target : Power} {book : Book} {c : Candidates}
    (hc : c ∈ m.candidates target book) {o : Offer} (ho : o ∈ c.offers) :
    o ∈ book.offersFor c.site ∧ Direction.towards target = some o.direction ∧ 0 < o.magnitude := by
  rw [(mem_candidates hc).2] at ho
  exact mem_usable_iff.mp ho

/-- A choice remains one in a book that lists more at every site. -/
theorem chooses_of_subset {m : Matcher} {target : Power} {first second : Book}
    (h : ∀ site ∈ m.sites, first.offersFor site ⊆ second.offersFor site)
    (hchooses : Chooses selection (m.candidates target first)) :
    Chooses selection (m.candidates target second) := by
  unfold Chooses candidates at hchooses ⊢
  rw [List.forall₂_map_right_iff] at hchooses ⊢
  have hboth := (List.forall₂_and_left _ _).mpr ⟨h, hchooses.flip⟩
  refine hboth.flip.imp fun decision site ⟨hsite, hdecision⟩ => ?_
  refine hdecision.imp_right fun ⟨o, ho, heq⟩ => ⟨o, ?_, heq⟩
  exact usable_subset hsite ho

/-- Without a direction there is nothing to choose from. -/
theorem activations_of_unusable (h : Chooses selection sites) (hnone : ∀ c ∈ sites, c.offers = []) :
    activations sites selection = [] := by
  rw [List.eq_nil_iff_forall_not_mem]
  intro a ha
  obtain ⟨c, hc, o, ho, _⟩ := mem_activations h ha
  rw [hnone c hc] at ho
  cases ho

/-- A matching step is the selection of its strategy, also where it does not ask for one. -/
theorem meet_eq_activations (m : Matcher) (tick : Tick) (target : Power) (book : Book) :
    ∃ selection, m.strategy.select tick target (m.candidates target book) = .ok selection ∧
      Chooses selection (m.candidates target book) ∧
      m.meet tick target book =
        .ok ⟨tick, target, activations (m.candidates target book) selection⟩ := by
  obtain ⟨selection, hs, hchooses⟩ :=
    m.strategy.select_chooses tick target (@inRange_of_candidates m target book)
  refine ⟨selection, hs, hchooses, ?_⟩
  unfold meet
  split
  · next hrest =>
    rw [activations_of_unusable hchooses]
    intro c hc
    rw [(mem_candidates hc).2, usable, hrest]
  · simp only [hs]
    rfl

end Matcher

/-- Matching answers for every book, and activates registered sites only. -/
theorem meet_eq_ok (m : Matcher) (tick : Tick) (target : Power) (book : Book) :
    ∃ outcome, m.meet tick target book = .ok outcome ∧
      ∀ a ∈ outcome.activations, a.site ∈ m.sites := by
  obtain ⟨selection, _, _, hmeet⟩ := m.meet_eq_activations tick target book
  refine ⟨_, hmeet, fun a ha => ?_⟩
  rw [← m.sites_candidates target book]
  exact (Matcher.sites_activations_sublist _ selection).subset (List.mem_map_of_mem ha)

end DemandResponse.Matching
