import DemandResponse.Proofs.Matching.Evaluation
import DemandResponse.Proofs.Matching.Peaks

/-!
# The best fit against every other choice

As long as the peaks of the registered sites together are a power value, clamping does not take
part in the search. The outcome of the exhaustive strategy is then at least as near to the target
as any choice of usable offers, one per site at most, and among the nearest it activates the
fewest. Being idle is such a choice, and so is whatever the moving horizon accepts.
-/

namespace DemandResponse.Matching

open BestFit (Chooses)

/-- Some offers are nearer to a target than others, or as near and no more. -/
def Leads (target : Power) (offers others : List Offer) : Prop :=
  (target.toInt - exactSum offers).natAbs < (target.toInt - exactSum others).natAbs ∨
    (target.toInt - exactSum offers).natAbs = (target.toInt - exactSum others).natAbs ∧
      offers.length ≤ others.length

section Search

variable {sites : List Candidates} {selection other : Selection} {way : Direction}

/-- Under peaks in range a combination is ranked by its exact deviation. -/
theorem BestFit.deviation_rank (target : Power) (hway : ∀ c ∈ sites, OneWay way c.offers)
    (hpeaks : combinedPeak sites ≤ Power.greatest) (h : Chooses selection sites) :
    (rank target selection).deviation =
      (target.toInt - exactSum (active selection)).natAbs := by
  rw [← toInt_total_of_combinedPeak hway hpeaks h]
  rfl

/-- No other choice is nearer to the target, and none that is as near has fewer offers. -/
theorem BestFit.leads_of_select {tick : Tick} {target : Power}
    (hway : ∀ c ∈ sites, OneWay way c.offers) (hpeaks : combinedPeak sites ≤ Power.greatest)
    (hselect : Strategy.exhaustive.select tick target sites = .ok selection)
    (hother : Chooses other sites) : Leads target (active selection) (active other) := by
  have hin := inRange_of_oneWay hway
  obtain ⟨_, hs, hchooses⟩ := Strategy.exhaustive.select_chooses tick target hin
  obtain rfl := Except.ok.inj (hs.symm.trans hselect)
  have hunbeaten := unbeaten_of_select hin hselect hother
  unfold Leads
  rw [← deviation_rank target hway hpeaks hchooses, ← deviation_rank target hway hpeaks hother]
  unfold Ahead Ranking.Before at hunbeaten
  change ¬ (_ ∨ _ ∧ ((active other).length < (active _).length ∨ _)) at hunbeaten
  omega

end Search

/-- A choice at these sites: at most one offer each, and only offers usable for the target. -/
def Permitted (sites : List SiteId) (target : Power) (book : Book)
    (choice : SiteId → Option Offer) : Prop :=
  ∀ site ∈ sites, ∀ o, choice site = some o → o ∈ usable target (book.offersFor site)

/-- An outcome that evaluates to its exact deviation and is not outdone by any choice. -/
structure Outcome.Unsurpassed (sites : List SiteId) (book : Book) (outcome : Outcome) : Prop where
  evaluates : outcome.deviation = .ok (outcome.target.toInt - outcome.exactSum).natAbs
  nearest : ∀ choice, Permitted sites outcome.target book choice →
    (outcome.target.toInt - outcome.exactSum).natAbs ≤
      (outcome.target.toInt - Matching.exactSum (sites.filterMap choice)).natAbs
  /-- Of the nearest choices none has fewer offers. -/
  fewest : ∀ choice, Permitted sites outcome.target book choice →
    (outcome.target.toInt - outcome.exactSum).natAbs =
      (outcome.target.toInt - Matching.exactSum (sites.filterMap choice)).natAbs →
    outcome.activations.length ≤ (sites.filterMap choice).length

namespace Matcher

variable {sites : List SiteId} {target : Power} {book : Book}

theorem chooses_of_permitted {choice : SiteId → Option Offer}
    (h : Permitted sites target book choice) (strategy : Strategy) :
    Chooses (sites.map choice) (candidates ⟨strategy, sites⟩ target book) := by
  unfold Chooses candidates
  rw [List.forall₂_map_left_iff, List.forall₂_map_right_iff, List.forall₂_same]
  intro site hsite
  cases hc : choice site with
  | none => exact Or.inl rfl
  | some o => exact Or.inr ⟨o, h site hsite o hc, rfl⟩

theorem active_map (choice : SiteId → Option Offer) :
    active (sites.map choice) = sites.filterMap choice := by
  rw [active, List.filterMap_map]
  rfl

/-- What the best fit activates leads every selection among the same candidates. -/
theorem meet_leads (tick : Tick)
    (hpeaks : combinedPeak (candidates ⟨.exhaustive, sites⟩ target book) ≤ Power.greatest) :
    ∃ best, meet ⟨.exhaustive, sites⟩ tick target book = .ok best ∧ best.target = target ∧
      best.Valued ∧ Power.InRange best.exactSum ∧
      ∀ other, Chooses other (candidates ⟨.exhaustive, sites⟩ target book) →
        Leads target (best.activations.map (·.offer)) (active other) := by
  obtain ⟨way, hway⟩ := oneWay_candidates ⟨.exhaustive, sites⟩ target book
  obtain ⟨best, selection, hmeet, htarget, hvalued, hselect, hchooses, hoffers⟩ :=
    meet_eq_chosen ⟨.exhaustive, sites⟩ tick target book
  refine ⟨best, hmeet, htarget, hvalued, ?_, fun other hother => ?_⟩
  · rw [Outcome.exactSum, hoffers]
    exact inRange_of_combinedPeak hway hpeaks hchooses
  · rw [hoffers]
    exact BestFit.leads_of_select hway hpeaks hselect hother

/-- An outcome that leads every selection is not outdone by any choice. -/
theorem unsurpassed_of_leads {best : Outcome} (hvalued : best.Valued)
    (hrange : Power.InRange best.exactSum)
    (hbest : ∀ other, Chooses other (candidates ⟨.exhaustive, sites⟩ best.target book) →
      Leads best.target (best.activations.map (·.offer)) (active other)) :
    best.Unsurpassed sites book := by
  have hchoice : ∀ choice, Permitted sites best.target book choice →
      Leads best.target (best.activations.map (·.offer)) (sites.filterMap choice) := by
    intro choice h
    rw [← active_map]
    exact hbest _ (chooses_of_permitted h .exhaustive)
  refine ⟨(hvalued.exact hrange).2.1, fun choice h => ?_, fun choice h heq => ?_⟩
  · rcases hchoice choice h with hlt | ⟨heq, _⟩
    · exact Nat.le_of_lt hlt
    · exact Nat.le_of_eq heq
  · rcases hchoice choice h with hlt | ⟨_, hle⟩
    · exact absurd heq (Nat.ne_of_lt hlt)
    · rwa [List.length_map] at hle

end Matcher

/-- Under peaks in range the exhaustive outcome is nearest to the target among all choices and
has the fewest activations among the nearest. So it is never farther from the target than the
outcome of the moving horizon or than zero is, and where the moving horizon is as near, it
activates no more sites. Both outcomes evaluate without a fault. -/
theorem meet_exhaustive_unsurpassed (registered : List SiteId) (book : Book) (tick : Tick)
    (target : Power)
    (hpeaks : combinedPeak ((Matcher.ofSites .exhaustive registered).candidates target book) ≤
      Power.greatest) :
    ∃ best greedy nearest farther,
      (Matcher.ofSites .exhaustive registered).meet tick target book = .ok best ∧
      (Matcher.ofSites .movingHorizon registered).meet tick target book = .ok greedy ∧
      best.target = target ∧ best.Unsurpassed registered.eraseDups book ∧
      best.deviation = .ok nearest ∧ greedy.deviation = .ok farther ∧
      nearest ≤ farther ∧ nearest ≤ target.toInt.natAbs ∧
      (farther = nearest → best.activations.length ≤ greedy.activations.length) := by
  rw [Matcher.ofSites_eq, Matcher.ofSites_eq]
  rw [Matcher.ofSites_eq] at hpeaks
  obtain ⟨best, hmeet, htarget, hvalued, hrange, hbest⟩ := Matcher.meet_leads tick hpeaks
  obtain ⟨greedy, accepted, hgreedy, htarget', hvalued', _, haccepted, hoffers⟩ :=
    Matcher.meet_eq_chosen ⟨.movingHorizon, registered.eraseDups⟩ tick target book
  obtain ⟨way, hway⟩ := Matcher.oneWay_candidates ⟨.exhaustive, registered.eraseDups⟩ target book
  have hrange' : Power.InRange greedy.exactSum := by
    rw [Outcome.exactSum, hoffers]
    exact inRange_of_combinedPeak hway hpeaks haccepted
  -- what the moving horizon accepts is one of the selections that the best fit leads
  have hgreedier := hbest accepted haccepted
  rw [← hoffers] at hgreedier
  simp only [Leads, Outcome.exactSum_offers, List.length_map] at hgreedier
  subst htarget
  have hunsurpassed := Matcher.unsurpassed_of_leads hvalued hrange hbest
  have hidle := hunsurpassed.nearest (fun _ => none) fun _ _ _ h => nomatch h
  rw [List.filterMap_none, exactSum_nil, Int.sub_zero] at hidle
  refine ⟨best, greedy, _, _, hmeet, hgreedy, rfl, hunsurpassed, hunsurpassed.evaluates,
    (hvalued'.exact hrange').2.1, ?_, hidle, ?_⟩
  · rw [htarget']
    omega
  · rw [htarget']
    omega

/-- Two sites, one of which is registered again, and keeps its place. -/
def overshotSites : List SiteId := [⟨"north"⟩, ⟨"south"⟩, ⟨"north"⟩]

/-- An offer of 4 in the north and one of 10 in the south. -/
def overshotBook : Book := Book.filled (pairCalls ⟨1, 4, .up, 0, 0, 0⟩ ⟨2, 10, .up, 0, 0, 0⟩)

/-- The moving horizon takes 4 and then overshoots to 14, the best fit finds 10 alone. -/
theorem meet_exhaustive_unsurpassed_overshot :
    combinedPeak ((Matcher.ofSites .exhaustive overshotSites).candidates 10 overshotBook) ≤
        Power.greatest ∧
      ∃ best greedy,
        (Matcher.ofSites .exhaustive overshotSites).meet 0 10 overshotBook = .ok best ∧
        (Matcher.ofSites .movingHorizon overshotSites).meet 0 10 overshotBook = .ok greedy ∧
        best.Unsurpassed overshotSites.eraseDups overshotBook ∧
        best.deviation = .ok 0 ∧ greedy.deviation = .ok 4 ∧
        best.activations.map (·.offer.id) = [2] ∧ greedy.activations.map (·.offer.id) = [1, 2] := by
  have hpeaks : combinedPeak
      ((Matcher.ofSites .exhaustive overshotSites).candidates 10 overshotBook) ≤
      Power.greatest := by
    decide +kernel
  have hten : ((Matcher.ofSites .exhaustive overshotSites).meet 0 10 overshotBook).bind
      (fun o => o.deviation.map fun d => (d, o.activations.map (·.offer.id))) = .ok (0, [2]) := by
    decide +kernel
  have hfourteen : ((Matcher.ofSites .movingHorizon overshotSites).meet 0 10 overshotBook).bind
      (fun o => o.deviation.map fun d => (d, o.activations.map (·.offer.id))) =
        .ok (4, [1, 2]) := by
    decide +kernel
  obtain ⟨best, greedy, nearest, farther, hbest, hgreedy, _, hunsurpassed, hnearest, hfarther, _⟩ :=
    meet_exhaustive_unsurpassed overshotSites overshotBook 0 10 hpeaks
  rw [hbest, Except.bind, hnearest, Except.map] at hten
  rw [hgreedy, Except.bind, hfarther, Except.map] at hfourteen
  obtain ⟨rfl, hsouth⟩ := Prod.mk.inj (Except.ok.inj hten)
  obtain ⟨rfl, hboth⟩ := Prod.mk.inj (Except.ok.inj hfourteen)
  exact ⟨hpeaks, best, greedy, hbest, hgreedy, hunsurpassed, hnearest, hfarther, hsouth, hboth⟩

end DemandResponse.Matching
