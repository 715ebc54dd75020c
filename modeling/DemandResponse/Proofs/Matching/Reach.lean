import DemandResponse.Proofs.Matching.Activations
import DemandResponse.Proofs.Matching.Sums

/-!
# How far a choice can go

Both strategies clamp what they add. A choice may therefore lie beyond the range of power values
and still look like the best one, or bring the rest closer to zero. How far it can go is limited
by the target: those of `Strategy.Covers` keep every choice in range, and for every other target
there are two offers that are chosen together although their sum is out of range.
-/

namespace DemandResponse.Matching

open BestFit (Chooses)

variable {sites : List Candidates} {selection : Selection} {way : Direction} {target : Power}

/-- Some of the chosen offers, in their order, can be chosen without the others. -/
theorem exists_chooses_of_sublist (h : Chooses selection sites) {part : List Offer}
    (hpart : part.Sublist (active selection)) :
    ∃ other, Chooses other sites ∧ active other = part := by
  induction h generalizing part with
  | nil => exact ⟨[], .nil, (List.sublist_nil.mp hpart).symm⟩
  | @cons decision c selection sites hd _ ih =>
    cases decision with
    | none =>
      obtain ⟨other, hother, rfl⟩ := ih hpart
      exact ⟨none :: other, .cons (Or.inl rfl) hother, rfl⟩
    | some o =>
      rcases List.sublist_cons_iff.mp hpart with hrest | ⟨part, rfl, hrest⟩
      · obtain ⟨other, hother, rfl⟩ := ih hrest
        exact ⟨none :: other, .cons (Or.inl rfl) hother, rfl⟩
      · obtain ⟨other, hother, rfl⟩ := ih hrest
        exact ⟨some o :: other, .cons hd hother, rfl⟩

/-- No smaller part of the best fit comes as near to the target as the whole. -/
theorem BestFit.distance_lt_of_part {part : List Offer}
    (hpart : part.Sublist (active (shown sites (best target sites).cursor)))
    (hlength : part.length < (active (shown sites (best target sites).cursor)).length) :
    Power.distance target (total (active (shown sites (best target sites).cursor))) <
      Power.distance target (total part) := by
  have hfirst := firstBest_shown target sites
  obtain ⟨other, hother, rfl⟩ :=
    exists_chooses_of_sublist (mem_combinations_iff.mp hfirst.mem) hpart
  have hunbeaten : ¬ Ahead target other _ :=
    hfirst.unbeaten (Ranking.strictRanking.comap (rank target)) (mem_combinations_iff.mpr hother)
  unfold Ahead Ranking.Before rank at hunbeaten
  dsimp only at hunbeaten
  omega

namespace Horizon

/-- A clamped rest would be at an end of the range, and no closer to zero than before. -/
theorem toInt_subClamped_of_closer {rest effect : Power}
    (h : Power.distance (Power.subClamped rest effect) 0 < Power.distance rest 0) :
    (Power.subClamped rest effect).toInt = rest.toInt - effect.toInt := by
  have hrest := Power.inRange_toInt rest
  have heffect := Power.inRange_toInt effect
  unfold Power.distance at h
  unfold Power.InRange at hrest heffect
  rw [Power.subClamped, Int64.toInt_zero, Power.toInt_clamp_eq] at h
  rw [Power.subClamped, Power.toInt_clamp_eq]
  unfold Power.least Power.greatest at *
  omega

/-- Every accepted offer brings the exact rest closer to zero. -/
theorem natAbs_rest_add_length_le (rest : Power) {representatives : List (Option Offer)}
    (h : ∀ o ∈ active representatives, Power.InRange o.signedMagnitude) :
    (rest.toInt - exactSum (active (accept rest representatives))).natAbs +
      (active (accept rest representatives)).length ≤ rest.toInt.natAbs := by
  induction representatives generalizing rest with
  | nil => simp [accept]
  | cons decision others ih =>
    cases decision with
    | none => exact ih rest h
    | some o =>
      have hothers := fun rest => ih rest fun x hx => h x (List.mem_cons_of_mem o hx)
      rw [accept]
      split
      · next hcloser =>
        have hafter := hothers (Power.subClamped rest (effect o))
        have hexact := toInt_subClamped_of_closer hcloser
        unfold Power.distance at hcloser
        rw [effect, Power.toInt_clamp (h o List.mem_cons_self)] at hexact
        rw [effect, hexact, Int64.toInt_zero] at hcloser
        rw [effect, hexact] at hafter
        rw [active_cons_some, exactSum_cons, List.length_cons, effect]
        omega
      · exact hothers rest

end Horizon

/-- What is chosen from offers in one direction goes in this direction. -/
theorem oneWay_active (h : Chooses selection sites) (hway : ∀ c ∈ sites, OneWay way c.offers) :
    OneWay way (active selection) := by
  rw [← Matcher.offers_activations h]
  intro o ho
  obtain ⟨a, ha, rfl⟩ := List.mem_map.mp ho
  obtain ⟨c, hc, o, hmem, rfl⟩ := Matcher.mem_activations h ha
  exact hway c hc o hmem

/-- The targets for which a strategy cannot choose beyond the range of power values: up to three
quarters of the range for the best fit, and up to half of it for the moving horizon. -/
def Strategy.Covers : Strategy → Power → Prop
  | .exhaustive, target => -0x6000000000000000 ≤ target.toInt ∧ target.toInt < 0x6000000000000000
  | .movingHorizon, target =>
    -0x4000000000000001 ≤ target.toInt ∧ target.toInt ≤ 0x4000000000000000

/-- Of two or more offers beyond the range, the first alone or the others alone would be nearer
to a target that is not far out. -/
theorem BestFit.inRange_exactSum (hway : ∀ c ∈ sites, OneWay way c.offers)
    (hcovers : Strategy.exhaustive.Covers target) :
    Power.InRange (exactSum (active (shown sites (best target sites).cursor))) := by
  have hone := oneWay_active (mem_combinations_iff.mp (firstBest_shown target sites).mem) hway
  have hparts := fun part => @distance_lt_of_part sites target part
  obtain ⟨hlo, hhi⟩ := hcovers
  generalize active (shown sites (best target sites).cursor) = chosen at hone hparts ⊢
  match chosen with
  | [] => decide
  | [a] => exact hone.inRange_singleton
  | a :: b :: rest =>
    have hfirst := hparts [a] (List.singleton_sublist.mpr List.mem_cons_self) (by simp)
    have hothers := hparts (b :: rest) (List.sublist_cons_self a _) (by simp)
    have ha := hone.inRange_head
    have hsingle : OneWay way [a] := fun o ho =>
      hone o (List.mem_singleton.mp ho ▸ List.mem_cons_self)
    rw [total_eq hone, total_eq hsingle, Power.distance, Power.distance] at hfirst
    rw [total_eq hone, total_eq hone.tail, Power.distance, Power.distance] at hothers
    rw [exactSum_cons] at hfirst hothers ⊢
    generalize exactSum (b :: rest) = others at *
    simp only [Power.toInt_clamp_eq, exactSum_cons, exactSum_nil] at hfirst hothers
    unfold Power.InRange Power.least Power.greatest at *
    omega

/-- Two or more accepted offers bring the rest of the target closer by two or more. -/
theorem Horizon.inRange_exactSum (hway : ∀ c ∈ sites, OneWay way c.offers) (tick : Tick)
    (hcovers : Strategy.movingHorizon.Covers target) :
    Power.InRange
      (exactSum (active (accept target (sites.map fun c => nearest tick c.offers)))) := by
  have hone := oneWay_active (chooses_accept tick target sites) hway
  have hrest := natAbs_rest_add_length_le target
    (@inRange_representatives tick sites (inRange_of_oneWay hway))
  obtain ⟨hlo, hhi⟩ := hcovers
  generalize active (accept target (sites.map fun c => nearest tick c.offers)) = chosen
    at hone hrest ⊢
  match chosen with
  | [] => decide
  | [a] => exact hone.inRange_singleton
  | a :: b :: rest =>
    rw [List.length_cons, List.length_cons] at hrest
    unfold Power.InRange Power.least Power.greatest at *
    omega

/-- No strategy chooses beyond the range for a target that it covers. -/
theorem Strategy.inRange_exactSum {strategy : Strategy} {tick : Tick}
    (hway : ∀ c ∈ sites, OneWay way c.offers) (hcovers : strategy.Covers target)
    (hselect : strategy.select tick target sites = .ok selection) :
    Power.InRange (exactSum (active selection)) := by
  have hrange := inRange_of_oneWay hway
  cases strategy with
  | exhaustive =>
    obtain rfl := Except.ok.inj ((BestFit.select_eq_ok hrange).symm.trans hselect)
    exact BestFit.inRange_exactSum hway hcovers
  | movingHorizon =>
    obtain rfl := Except.ok.inj ((Horizon.select_eq_ok hrange).symm.trans hselect)
    exact Horizon.inRange_exactSum hway tick hcovers

/-- Two sites with one offer each, both brought into an empty book. -/
def pairCalls (first second : Offer) : List Book.Filling :=
  [.add ⟨"north"⟩ first, .add ⟨"south"⟩ second]

def pair (first second : Offer) : List Candidates :=
  [⟨⟨"north"⟩, [first]⟩, ⟨⟨"south"⟩, [second]⟩]

section Pair

variable {first second : Offer}

theorem filled_pairCalls (hid : first.id ≠ second.id) :
    Book.filled (pairCalls first second) =
      ⟨[(⟨"north"⟩, [first]), (⟨"south"⟩, [second])], [second.id, first.id]⟩ := by
  have hfresh : second.id ∉ [first.id] := fun h => hid (List.mem_singleton.mp h).symm
  simp only [Book.filled, pairCalls, List.foldl_cons, List.foldl_nil, Book.perform, Book.add,
    Book.empty, if_neg List.not_mem_nil, if_neg hfresh]
  rfl

theorem candidates_pair (strategy : Strategy) (hid : first.id ≠ second.id)
    (hway : Direction.towards target = some way) (hone : OneWay way [first, second]) :
    (Matcher.ofSites strategy [⟨"north"⟩, ⟨"south"⟩]).candidates target
      (Book.filled (pairCalls first second)) = pair first second := by
  have husable : ∀ o ∈ [first, second], usable target [o] = [o] := by
    intro o ho
    rw [usable, hway]
    exact List.filter_cons_of_pos (decide_eq_true (hone o ho))
  rw [filled_pairCalls hid]
  change [Candidates.mk _ (usable target [first]), Candidates.mk _ (usable target [second])] = _
  rw [husable first List.mem_cons_self, husable second (List.mem_cons_of_mem _ List.mem_cons_self)]
  rfl

theorem oneWay_pair (hone : OneWay way [first, second]) :
    ∀ c ∈ pair first second, OneWay way c.offers := by
  intro c hc o ho
  rcases List.mem_pair.mp hc with rfl | rfl
  · exact hone o (List.mem_singleton.mp ho ▸ List.mem_cons_self)
  · exact hone.tail o ho

/-- Two offers that a strategy chooses together although their sum is out of range. -/
structure Strategy.Exceeds (strategy : Strategy) (target : Power) (first second : Offer) :
    Prop where
  id_ne : first.id ≠ second.id
  oneWay : ∃ way, Direction.towards target = some way ∧ OneWay way [first, second]
  select_eq : ∀ tick, strategy.select tick target (pair first second) =
    .ok [some first, some second]
  not_inRange : ¬ Power.InRange (exactSum [first, second])

/-- Either offer brings the rest closer, and the pass accepts both. -/
theorem Horizon.exceeds (hid : first.id ≠ second.id)
    (hway : Direction.towards target = some way) (hone : OneWay way [first, second])
    (hout : ¬ Power.InRange (exactSum [first, second]))
    (hfirst : (target.toInt - first.signedMagnitude).natAbs < target.toInt.natAbs)
    (hsecond : (target.toInt - exactSum [first, second]).natAbs <
      (target.toInt - first.signedMagnitude).natAbs) :
    Strategy.movingHorizon.Exceeds target first second := by
  refine ⟨hid, ⟨way, hway, hone⟩, fun tick => ?_, hout⟩
  have htarget := Power.inRange_toInt target
  have hafter : (Power.subClamped target (effect first)).toInt =
      target.toInt - first.signedMagnitude := by
    rw [Power.subClamped, effect, Power.toInt_clamp hone.inRange_head, Power.toInt_clamp]
    unfold Power.InRange Power.least Power.greatest at *
    omega
  have hlast : (Power.subClamped (Power.subClamped target (effect first)) (effect second)).toInt =
      target.toInt - exactSum [first, second] := by
    have hsum : exactSum [first, second] = first.signedMagnitude + second.signedMagnitude := by
      simp
    rw [hsum] at hsecond ⊢
    rw [Power.subClamped, hafter, effect, Power.toInt_clamp hone.tail.inRange_head, Int.sub_sub,
      Power.toInt_clamp]
    unfold Power.InRange Power.least Power.greatest at *
    omega
  have haccept : accept target [some first, some second] = [some first, some second] := by
    simp only [accept, Power.distance, hafter, hlast, Int64.toInt_zero, Int.sub_zero,
      if_pos hfirst, if_pos hsecond]
  rw [Strategy.select, select_eq_ok fun c hc o ho => (oneWay_pair hone c hc).inRange ho]
  exact congrArg Except.ok haccept

/-- Both offers together are nearer than any other choice, and the search ends at them. -/
theorem BestFit.exceeds (hid : first.id ≠ second.id)
    (hway : Direction.towards target = some way) (hone : OneWay way [first, second])
    (hout : ¬ Power.InRange (exactSum [first, second]))
    (hidle : Power.distance target (total [first, second]) < Power.distance target (total []))
    (hfirst : Power.distance target (total [first, second]) <
      Power.distance target (total [first]))
    (hsecond : Power.distance target (total [first, second]) <
      Power.distance target (total [second])) :
    Strategy.exhaustive.Exceeds target first second := by
  refine ⟨hid, ⟨way, hway, hone⟩, fun _ => ?_, hout⟩
  have hbest := firstBest_shown target (pair first second)
  have hboth : Chooses [some first, some second] (pair first second) :=
    .cons (Or.inr ⟨first, List.mem_cons_self, rfl⟩)
      (.cons (Or.inr ⟨second, List.mem_cons_self, rfl⟩) .nil)
  have hunbeaten : ¬ Ahead target [some first, some second] _ :=
    hbest.unbeaten (Ranking.strictRanking.comap (rank target)) (mem_combinations_iff.mpr hboth)
  have hchooses := mem_combinations_iff.mp hbest.mem
  rw [Strategy.select, select_eq_ok fun c hc o ho => (oneWay_pair hone c hc).inRange ho]
  generalize shown (pair first second) (best target (pair first second)).cursor = chosen
    at hunbeaten hchooses ⊢
  obtain ⟨d, rest, hd, hrest, rfl⟩ := List.forall₂_cons_right_iff.mp hchooses
  obtain ⟨e, rest, he, hnil, rfl⟩ := List.forall₂_cons_right_iff.mp hrest
  obtain rfl := List.forall₂_nil_right_iff.mp hnil
  simp only [List.mem_singleton, exists_eq_left] at hd he
  rcases hd with rfl | rfl <;> rcases he with rfl | rfl
  · exact absurd (Or.inl hidle) hunbeaten
  · exact absurd (Or.inl hsecond) hunbeaten
  · exact absurd (Or.inl hfirst) hunbeaten
  · rfl

end Pair

theorem towards_of_pos (h : 0 < target.toInt) : Direction.towards target = some .up :=
  if_pos (Int64.lt_iff_toInt_lt.mpr (by rwa [Int64.toInt_zero]))

theorem towards_of_neg (h : target.toInt < 0) : Direction.towards target = some .down := by
  have hneg : target < 0 := Int64.lt_iff_toInt_lt.mpr (by rwa [Int64.toInt_zero])
  rw [Direction.towards, if_neg (fun hpos => Int64.lt_asymm hpos hneg), if_pos hneg]

theorem BestFit.exists_exceeds (h : ¬ Strategy.exhaustive.Covers target) :
    ∃ first second, Strategy.exhaustive.Exceeds target first second := by
  have hrange := Power.inRange_toInt target
  unfold Power.InRange Power.least Power.greatest at hrange
  unfold Strategy.Covers at h
  dsimp only at h
  by_cases hpos : 0 < target.toInt
  · refine ⟨⟨1, 0x4000000000000000, .up, 0, 0, 0⟩, ⟨2, 0x4000000000000000, .up, 0, 0, 0⟩,
      exceeds (by decide) (towards_of_pos hpos) (by decide) (by decide) ?_ ?_ ?_⟩
    · change (target.toInt - 0x7fffffffffffffff).natAbs < (target.toInt - 0).natAbs
      omega
    · change (target.toInt - 0x7fffffffffffffff).natAbs <
        (target.toInt - 0x4000000000000000).natAbs
      omega
    · change (target.toInt - 0x7fffffffffffffff).natAbs <
        (target.toInt - 0x4000000000000000).natAbs
      omega
  · refine ⟨⟨1, 0x4000000000000000, .down, 0, 0, 0⟩, ⟨2, 0x4000000000000001, .down, 0, 0, 0⟩,
      exceeds (by decide) (towards_of_neg (by omega)) (by decide) (by decide) ?_ ?_ ?_⟩
    · change (target.toInt - -0x8000000000000000).natAbs < (target.toInt - 0).natAbs
      omega
    · change (target.toInt - -0x8000000000000000).natAbs <
        (target.toInt - -0x4000000000000000).natAbs
      omega
    · change (target.toInt - -0x8000000000000000).natAbs <
        (target.toInt - -0x4000000000000001).natAbs
      omega

theorem Horizon.exists_exceeds (h : ¬ Strategy.movingHorizon.Covers target) :
    ∃ first second, Strategy.movingHorizon.Exceeds target first second := by
  have hrange := Power.inRange_toInt target
  unfold Power.InRange Power.least Power.greatest at hrange
  unfold Strategy.Covers at h
  dsimp only at h
  by_cases hpos : 0 < target.toInt
  · refine ⟨⟨1, 1, .up, 0, 0, 0⟩, ⟨2, 0x7fffffffffffffff, .up, 0, 0, 0⟩,
      exceeds (by decide) (towards_of_pos hpos) (by decide) (by decide) ?_ ?_⟩
    · change (target.toInt - 1).natAbs < _
      omega
    · change (target.toInt - 0x8000000000000000).natAbs < (target.toInt - 1).natAbs
      omega
  · refine ⟨⟨1, 2, .down, 0, 0, 0⟩, ⟨2, 0x7fffffffffffffff, .down, 0, 0, 0⟩,
      exceeds (by decide) (towards_of_neg (by omega)) (by decide) (by decide) ?_ ?_⟩
    · change (target.toInt - -2).natAbs < _
      omega
    · change (target.toInt - -0x8000000000000001).natAbs < (target.toInt - -2).natAbs
      omega

/-- Beyond the targets that a strategy covers there are offers that it adds up too far. -/
theorem Strategy.exists_exceeds {strategy : Strategy} (h : ¬ strategy.Covers target) :
    ∃ first second, strategy.Exceeds target first second := by
  cases strategy with
  | exhaustive => exact BestFit.exists_exceeds h
  | movingHorizon => exact Horizon.exists_exceeds h

end DemandResponse.Matching
