import DemandResponse.Matching.Matcher
import DemandResponse.Proofs.FirstBest
import DemandResponse.Proofs.Matching.Cursors
import Mathlib.Order.Basic
import Mathlib.Data.List.Forall2

/-!
# The best fit is the first of the best combinations

`combinations` lists every way to decide per site, without cursors. The search visits them in
this order, and the comparison that skips the ids where they cannot matter is the comparison of
whole rankings. The search therefore ends at the first of the best combinations, for targets and
contributions anywhere in the range of power values.
-/

namespace DemandResponse.Matching

namespace Ranking

theorem before_asymm {a b : Ranking} (h : a.Before b) : ¬ b.Before a := by
  rintro (hb | ⟨_, hb | ⟨_, hb⟩⟩) <;> rcases h with h | ⟨_, h | ⟨_, h⟩⟩
  any_goals omega
  exact List.lt_asymm h hb

theorem ids_cotrans {l l' : List Int64} (h : l < l') (m : List Int64) : l < m ∨ m < l' := by
  by_cases hm : l < m
  · exact Or.inl hm
  · exact Or.inr (List.lt_of_le_of_lt (List.not_lt.mp hm) h)

theorem before_cotrans {a b : Ranking} (h : a.Before b) (c : Ranking) :
    a.Before c ∨ c.Before b := by
  rcases Nat.lt_trichotomy a.deviation c.deviation with hd | hd | hd
  · exact Or.inl (Or.inl hd)
  · rcases h with h | ⟨hab, h⟩
    · exact Or.inr (Or.inl (hd ▸ h))
    · rcases Nat.lt_trichotomy a.active c.active with hn | hn | hn
      · exact Or.inl (Or.inr ⟨hd, Or.inl hn⟩)
      · rcases h with h | ⟨hn', h⟩
        · exact Or.inr (Or.inr ⟨hd ▸ hab, Or.inl (hn ▸ h)⟩)
        · rcases ids_cotrans h c.ids with hi | hi
          · exact Or.inl (Or.inr ⟨hd, Or.inr ⟨hn, hi⟩⟩)
          · exact Or.inr (Or.inr ⟨hd ▸ hab, Or.inr ⟨hn ▸ hn', hi⟩⟩)
      · exact Or.inr (Or.inr ⟨hd ▸ hab, Or.inl (by omega)⟩)
  · refine Or.inr (Or.inl ?_)
    rcases h with h | ⟨h, _⟩ <;> omega

theorem strictRanking : StrictRanking Before := ⟨before_asymm, fun h => before_cotrans h⟩

end Ranking

namespace BestFit

/-- What can be decided for one site, idle first. -/
def choices (c : Candidates) : List (Option Offer) := none :: c.offers.map some

/-- Every way to decide for each site, the decision for the first site varying fastest. -/
def combinations : (sites : List Candidates) → List Selection
  | [] => [[]]
  | c :: sites => (combinations sites).flatMap fun rest => (choices c).map (· :: rest)

/-- One decision per site, each idle or one of the offers of the site. -/
def Chooses : Selection → List Candidates → Prop :=
  List.Forall₂ fun decision c => decision = none ∨ ∃ o ∈ c.offers, decision = some o

theorem mem_choices_iff {decision : Option Offer} {c : Candidates} :
    decision ∈ choices c ↔ decision = none ∨ ∃ o ∈ c.offers, decision = some o := by
  simp only [choices, List.mem_cons, List.mem_map, eq_comm]

/-- The combinations are the choices, all of them and nothing else. -/
theorem mem_combinations_iff {selection : Selection} {sites : List Candidates} :
    selection ∈ combinations sites ↔ Chooses selection sites := by
  induction sites generalizing selection with
  | nil =>
    rw [combinations, List.mem_singleton, Chooses, List.forall₂_nil_right_iff]
  | cons c sites ih =>
    rw [combinations, List.mem_flatMap]
    constructor
    · rintro ⟨rest, hrest, hs⟩
      obtain ⟨decision, hd, rfl⟩ := List.mem_map.mp hs
      exact .cons (mem_choices_iff.mp hd) (ih.mp hrest)
    · intro hs
      obtain ⟨decision, rest, hd, hrest, rfl⟩ := List.forall₂_cons_right_iff.mp hs
      exact ⟨rest, ih.mpr hrest, List.mem_map.mpr ⟨decision, mem_choices_iff.mpr hd, rfl⟩⟩

/-- A full turn of one wheel shows every choice of its site. -/
theorem map_pick_range (c : Candidates) :
    (List.range (c.offers.length + 1)).map (pick · c) = choices c := by
  rw [List.range_succ_eq_map, List.map_cons, List.map_map, choices]
  congr 1
  apply List.ext_getElem?
  intro i
  by_cases hi : i < c.offers.length
  · simp [pick, List.getElem?_range hi, List.getElem?_eq_getElem hi]
  · rw [List.getElem?_eq_none (by simpa using hi), List.getElem?_eq_none (by simpa using hi)]

/-- The cursors show the combinations, in the same order. -/
theorem map_shown_cursors (sites : List Candidates) :
    (Odometer.cursors (sizes sites)).map (shown sites) = combinations sites := by
  induction sites with
  | nil => rfl
  | cons c sites ih =>
    rw [combinations, ← ih, List.flatMap_map]
    change ((Odometer.cursors (sizes sites)).flatMap (Odometer.turns c.offers.length)).map _ = _
    rw [List.map_flatMap]
    congr 1
    funext rest
    rw [Odometer.turns, ← map_pick_range, List.map_map, List.map_map]
    rfl

/-- The rank of the combination at a cursor. -/
def rankAt (target : Power) (sites : List Candidates) (cursor : List Nat) : Ranking :=
  rank target (shown sites cursor)

/-- Passing over what deviation and number rule out loses no better combination. -/
theorem challenge_eq (target : Power) (sites : List Candidates) (best : Standing)
    (cursor : List Nat) :
    challenge target sites best cursor =
      if (rankAt target sites cursor).Before best.ranking then
        ⟨rankAt target sites cursor, cursor⟩
      else best := by
  by_cases hworse : best.ranking.deviation < (rankAt target sites cursor).deviation ∨
      best.ranking.deviation = (rankAt target sites cursor).deviation ∧
        best.ranking.active < (rankAt target sites cursor).active
  · have hb : ¬ (rankAt target sites cursor).Before best.ranking := by
      rintro (hd | ⟨hd, hn | ⟨hn, _⟩⟩) <;> omega
    rw [if_neg hb]
    exact if_pos hworse
  · exact if_neg hworse

/-- The search is one pass over the cursors that the odometer moves to. -/
theorem search_eq_foldl (target : Power) (sites : List Candidates) {sizes cursor left : List Nat}
    {passed : List (List Nat)} (h : Odometer.Walk sizes cursor passed left) (best : Standing) :
    search target sites sizes cursor best = passed.foldl (challenge target sites) best := by
  induction h generalizing best with
  | stop hs =>
    rw [search]
    split
    · rfl
    · next hm => cases hs.symm.trans hm
  | move hm _ ih =>
    rw [search]
    split
    · next hs => cases hm.symm.trans hs
    · next hm' =>
      obtain rfl := (Prod.mk.inj (hm.symm.trans hm')).2
      rw [List.foldl_cons]
      exact ih _

/-- A standing that carries the rank of its own combination. -/
def standing (target : Power) (sites : List Candidates) (cursor : List Nat) : Standing :=
  ⟨rankAt target sites cursor, cursor⟩

theorem foldl_challenge (target : Power) (sites : List Candidates) (l : List (List Nat))
    (cursor : List Nat) :
    l.foldl (challenge target sites) (standing target sites cursor) =
      standing target sites (l.foldl (fun best x =>
        if (rankAt target sites x).Before (rankAt target sites best) then x else best) cursor) := by
  induction l generalizing cursor with
  | nil => rfl
  | cons x l ih =>
    rw [List.foldl_cons, List.foldl_cons, ← ih, challenge_eq]
    congr 1
    by_cases hx : (rankAt target sites x).Before (rankAt target sites cursor)
    · rw [if_pos hx]
      exact if_pos hx
    · rw [if_neg hx]
      exact if_neg hx

theorem shown_start (sites : List Candidates) :
    Matching.active (shown sites (Odometer.start (sizes sites))) = [] := by
  induction sites with
  | nil => rfl
  | cons c sites ih => exact ih

/-- The idle combination is ranked without a step of the odometer. -/
theorem standing_start (target : Power) (sites : List Candidates) :
    standing target sites (Odometer.start (sizes sites)) =
      ⟨⟨Power.distance target 0, 0, []⟩, Odometer.start (sizes sites)⟩ := by
  simp only [standing, rankAt, rank, shown_start]
  rfl

/-- The search is one pass over all cursors, the idle one first. -/
theorem best_eq_foldl (target : Power) (sites : List Candidates) :
    ∃ more, Odometer.cursors (sizes sites) = Odometer.start (sizes sites) :: more ∧
      best target sites = more.foldl (challenge target sites)
        (standing target sites (Odometer.start (sizes sites))) := by
  obtain ⟨more, hm, hwalk⟩ := Odometer.walk_start (sizes sites)
  refine ⟨more, hm, ?_⟩
  rw [best, standing_start]
  exact search_eq_foldl target sites hwalk _

/-- The best standing is at the first of the best cursors. -/
theorem firstBest_best (target : Power) (sites : List Candidates) :
    FirstBest (fun a b => (rankAt target sites a).Before (rankAt target sites b))
      (Odometer.cursors (sizes sites)) (best target sites).cursor := by
  obtain ⟨more, hm, hbest⟩ := best_eq_foldl target sites
  rw [hm, hbest, foldl_challenge]
  exact firstBest_foldl (Ranking.strictRanking.comap (rankAt target sites)) _ _

/-- One combination is ranked before another against a target. -/
def Ahead (target : Power) (a b : Selection) : Prop := (rank target a).Before (rank target b)

theorem select_eq_ok {target : Power} {sites : List Candidates}
    (h : ∀ c ∈ sites, ∀ o ∈ c.offers, Power.InRange o.signedMagnitude) :
    select target sites = .ok (shown sites (best target sites).cursor) := by
  rw [select, if_pos]
  simp only [List.all_eq_true]
  intro c hc o ho
  have hp := Power.toInt_clamp (h c hc o ho)
  rw [Offer.contribution_eq_ok_iff.mpr hp]
  rfl

end BestFit

open BestFit in
/-- With contributions in range the exhaustive strategy answers the first of the best
combinations: it is ranked strictly before all combinations before it, and no choice at all is
ranked before it. -/
theorem exhaustive_select_firstBest (tick : Tick) (target : Power) (sites : List Candidates)
    (h : ∀ c ∈ sites, ∀ o ∈ c.offers, Power.InRange o.signedMagnitude) :
    ∃ selection, Strategy.exhaustive.select tick target sites = .ok selection ∧
      FirstBest (Ahead target) (combinations sites) selection ∧
      Chooses selection sites ∧
      ∀ other, Chooses other sites → ¬ Ahead target other selection := by
  have hf : FirstBest (Ahead target) (combinations sites)
      (shown sites (best target sites).cursor) := by
    rw [← map_shown_cursors]
    exact @FirstBest.map _ _ (Ahead target) _ _ _ (firstBest_best target sites)
  refine ⟨_, select_eq_ok h, hf, mem_combinations_iff.mp hf.mem, ?_⟩
  intro other hother
  exact hf.unbeaten (Ranking.strictRanking.comap (rank target)) (mem_combinations_iff.mpr hother)

/-- Two sites with the same offer under the same id: either alone fits a target of 5 exactly. -/
def twins : List Candidates :=
  [⟨⟨"north"⟩, [⟨7, 5, .up, 0, 0, 0⟩]⟩, ⟨⟨"south"⟩, [⟨7, 5, .up, 0, 0, 0⟩, ⟨8, 6, .down, 0, 0, 0⟩]⟩]

/-- The northern offer alone. -/
def northern : Selection := [some ⟨7, 5, .up, 0, 0, 0⟩, none]

open BestFit in
/-- The northern offer comes first among the two combinations that fit. -/
theorem exhaustive_select_twins :
    (∀ c ∈ twins, ∀ o ∈ c.offers, Power.InRange o.signedMagnitude) ∧
      Strategy.exhaustive.select 0 5 twins = .ok northern ∧
      FirstBest (Ahead 5) (combinations twins) northern ∧
      Chooses northern twins ∧
      ∀ other, Chooses other twins → ¬ Ahead 5 other northern := by
  obtain ⟨selection, hselect, hbest⟩ := exhaustive_select_firstBest 0 5 twins (by decide)
  have hnorthern : Strategy.exhaustive.select 0 5 twins = .ok northern := by decide +kernel
  obtain rfl := Except.ok.inj (hselect.symm.trans hnorthern)
  exact ⟨by decide, hselect, hbest⟩

end DemandResponse.Matching
