import DemandResponse.Proofs.Matching.Activations
import DemandResponse.Proofs.Matching.Evaluation
import DemandResponse.Proofs.Matching.Greedy

/-!
# How the moving horizon approaches a target

Usable offers all go in the direction of the target, so the pass fills the target up from zero. What
it has reached is told by the magnitudes of the activations so far. A representative is activated as
long as it is smaller than twice what is missing. Hence only the last activation may go beyond the
target, and never as far as twice the target.
-/

namespace DemandResponse.Matching

open BestFit (Chooses)

/-- The magnitudes of some offers together. -/
def volume : List Offer → Int
  | [] => 0
  | o :: rest => o.magnitude.toInt + volume rest

@[simp] theorem volume_nil : volume [] = 0 := rfl

@[simp] theorem volume_cons (o : Offer) (rest : List Offer) :
    volume (o :: rest) = o.magnitude.toInt + volume rest := rfl

theorem volume_concat (offers : List Offer) (o : Offer) :
    volume (offers ++ [o]) = volume offers + o.magnitude.toInt := by
  induction offers with
  | nil => simp
  | cons x offers ih =>
    rw [List.cons_append, volume_cons, ih, volume_cons]
    omega

variable {way : Direction} {o : Offer} {offers : List Offer} {tick : Tick} {rest : Power}
  {missing : Int}

namespace OneWay

theorem signedMagnitude_eq (h : OneWay way offers) (ho : o ∈ offers) :
    o.signedMagnitude = way.sign * o.magnitude.toInt := by
  rw [Offer.signedMagnitude, (h o ho).1]

theorem magnitude_pos (h : OneWay way offers) (ho : o ∈ offers) : 0 < o.magnitude.toInt :=
  Int64.lt_iff_toInt_lt.mp (h o ho).2

/-- In one direction the exact sum is the volume, up to its sign. -/
theorem exactSum_eq (h : OneWay way offers) : exactSum offers = way.sign * volume offers := by
  induction offers with
  | nil => cases way <;> rfl
  | cons o rest ih =>
    rw [exactSum_cons, volume_cons, ih h.tail, h.signedMagnitude_eq List.mem_cons_self, Int.mul_add]

theorem volume_nonneg (h : OneWay way offers) : 0 ≤ volume offers := by
  have hsum := h.exactSum_nonneg
  rw [h.exactSum_eq] at hsum
  cases way <;> simp only [Direction.sign] at hsum <;> omega

end OneWay

/-- Offers that fill up what is missing: each is smaller than twice what those before it leave. -/
def Fills (missing : Int) (offers : List Offer) : Prop :=
  ∀ earlier o later, offers = earlier ++ o :: later →
    o.magnitude.toInt < 2 * (missing - volume earlier)

namespace Fills

variable (h : Fills missing offers) (hone : OneWay way offers)

include h hone

/-- Something is missing ahead of each of them. -/
theorem short {earlier later : List Offer} (hsplit : offers = earlier ++ o :: later) :
    volume earlier < missing := by
  have ho : o ∈ offers := hsplit ▸ List.mem_append_right earlier List.mem_cons_self
  have hpos := hone.magnitude_pos ho
  have hsmall := h earlier o later hsplit
  omega

theorem ended {earlier later : List Offer} (hsplit : offers = earlier ++ o :: later)
    (hreached : missing ≤ volume (earlier ++ [o])) : later = [] := by
  cases later with
  | nil => rfl
  | cons next later =>
    have hshort := h.short hone (hsplit.trans (List.append_cons earlier o (next :: later)))
    omega

theorem bounded (hne : offers ≠ []) : 0 < volume offers ∧ volume offers < 2 * missing := by
  rcases List.eq_nil_or_concat offers with rfl | ⟨earlier, o, rfl⟩
  · exact absurd rfl hne
  · rw [List.concat_eq_append] at h hone ⊢
    have hpos := hone.magnitude_pos (List.mem_append_right earlier (List.mem_singleton.mpr rfl))
    have hearlier : 0 ≤ volume earlier :=
      OneWay.volume_nonneg fun x hx => hone x (List.mem_append_left [o] hx)
    have hsmall := h earlier o [] rfl
    rw [volume_concat]
    omega

/-- Filled up from zero, they end nearer to the target than zero is. -/
theorem nearer (hne : offers ≠ []) {target : Int} (htarget : target = way.sign * missing) :
    (target - exactSum offers).natAbs < target.natAbs := by
  obtain ⟨hpos, hbelow⟩ := h.bounded hone hne
  rw [hone.exactSum_eq, htarget]
  cases way <;> simp only [Direction.sign] <;> omega

end Fills

namespace Horizon

/-- Where so much of the target is missing, an offer comes closer to it if and only if it is smaller
than twice of that. -/
theorem natAbs_lt_iff (hone : OneWay way offers) (ho : o ∈ offers)
    (hrest : rest.toInt = way.sign * missing) :
    (rest.toInt - o.signedMagnitude).natAbs < rest.toInt.natAbs ↔
      o.magnitude.toInt < 2 * missing := by
  have hpos := hone.magnitude_pos ho
  rw [hrest, hone.signedMagnitude_eq ho]
  cases way <;> simp only [Direction.sign] <;> omega

theorem step_eq_some_iff (hone : OneWay way offers) (hrest : rest.toInt = way.sign * missing) :
    (step rest (nearest tick offers)).2 = some o ↔
      Represents tick offers o ∧ o.magnitude.toInt < 2 * missing := by
  cases hnearest : nearest tick offers with
  | none =>
    have hbare := nearest_eq_none_iff.mp hnearest
    constructor
    · intro h
      cases h
    · rintro ⟨hrepresents, -⟩
      cases hbare ▸ FirstBest.mem hrepresents
  | some x =>
    have hx := nearest_eq_some_iff.mp hnearest
    have hmem := mem_of_nearest hnearest
    have hcloser := natAbs_lt_iff hone hmem hrest
    rcases step_cases rest (hone.inRange hmem) with ⟨hlt, hstep, -⟩ | ⟨hlt, hstep⟩
    · rw [hstep, Option.some.injEq]
      constructor
      · rintro rfl
        exact ⟨hx, hcloser.mp hlt⟩
      · rintro ⟨hrepresents, -⟩
        exact FirstBest.eq hx hrepresents
    · rw [hstep]
      constructor
      · intro h
        cases h
      · rintro ⟨hrepresents, hsmall⟩
        obtain rfl := FirstBest.eq hx hrepresents
        exact absurd (hcloser.mpr hsmall) hlt

/-- What is accepted fills up the rest. -/
theorem fills_accept {representatives : List (Option Offer)}
    (hone : OneWay way (active representatives)) (hrest : rest.toInt = way.sign * missing) :
    Fills missing (active (accept rest representatives)) := by
  intro earlier o later h
  induction representatives generalizing rest missing earlier with
  | nil => simp [accept] at h
  | cons representative others ih =>
    cases representative with
    | none => exact ih hone hrest earlier h
    | some x =>
      have hx : x ∈ active (some x :: others) := List.mem_cons_self
      rw [accept_cons] at h
      rcases step_cases rest (hone.inRange hx) with ⟨hlt, hstep, hexact⟩ | ⟨-, hstep⟩
      · rw [hstep, active_cons_some] at h
        have hsmall := (natAbs_lt_iff hone hx hrest).mp hlt
        rcases List.cons_eq_append_iff.mp h with ⟨rfl, hcons⟩ | ⟨earlier, rfl, hothers⟩
        · obtain rfl := (List.cons.inj hcons).1
          rwa [volume_nil, Int.sub_zero]
        · have hafter : (Power.subClamped rest (effect x)).toInt =
              way.sign * (missing - x.magnitude.toInt) := by
            rw [hexact, hrest, hone.signedMagnitude_eq hx, Int.mul_sub]
          have hlater := ih hone.tail hafter earlier hothers
          rw [volume_cons]
          omega
      · rw [hstep] at h
        exact ih hone.tail hrest earlier h

end Horizon

/-- The way of the usable offers is the way of the target. -/
theorem Matcher.exists_way (m : Matcher) (target : Power) (book : Book) :
    ∃ way : Direction, (∀ c ∈ m.candidates target book, OneWay way c.offers) ∧
      target.toInt = way.sign * target.toInt.natAbs := by
  rcases Int.lt_trichotomy target.toInt 0 with hneg | hzero | hpos
  · refine ⟨.down, oneWay_of_towards (towards_of_neg hneg), ?_⟩
    show target.toInt = -1 * _
    omega
  · obtain ⟨way, hway⟩ := m.oneWay_candidates target book
    refine ⟨way, hway, ?_⟩
    rw [hzero]
    exact (Int.mul_zero _).symm
  · refine ⟨.up, oneWay_of_towards (towards_of_pos hpos), ?_⟩
    show target.toInt = 1 * _
    omega

namespace Matcher

variable {front back : List Candidates} {c : Candidates} {taken later : Selection}
  {decision : Option Offer}

theorem activations_append (h : front.length = taken.length) :
    activations (front ++ back) (taken ++ later) =
      activations front taken ++ activations back later := by
  rw [activations, List.zipWith_append h, List.filterMap_append]
  rfl

theorem site_mem_of_activations {sites : List Candidates} {selection : Selection} {a : Activation}
    (h : a ∈ activations sites selection) : a.site ∈ sites.map (·.site) :=
  (sites_activations_sublist sites selection).subset (List.mem_map_of_mem h)

/-- Under distinct names, what is activated at a site is the decision for it. -/
theorem mem_activations_iff_of_nodup (h : front.length = taken.length)
    (hnodup : ((front ++ c :: back).map (·.site)).Nodup) {a : Activation} (ha : a.site = c.site) :
    a ∈ activations (front ++ c :: back) (taken ++ decision :: later) ↔
      activation c decision = some a := by
  rw [List.map_append, List.map_cons] at hnodup
  obtain ⟨-, hback, hdisjoint⟩ := List.nodup_append.mp hnodup
  have hfront : a ∉ activations front taken := fun hmem =>
    hdisjoint _ (site_mem_of_activations hmem) _ List.mem_cons_self ha
  have hlater : a ∉ activations back later := fun hmem =>
    (List.nodup_cons.mp hback).1 (ha ▸ site_mem_of_activations hmem)
  rw [activations_append h, List.mem_append, or_iff_right hfront]
  cases decision with
  | none => exact iff_of_false hlater (fun hnone => nomatch hnone)
  | some o =>
    rw [activations_cons_some, List.mem_cons, or_iff_left hlater]
    show a = _ ↔ some _ = some a
    rw [Option.some.injEq, eq_comm]

end Matcher

theorem Horizon.oneWay_representatives {sites : List Candidates}
    (hway : ∀ c ∈ sites, OneWay way c.offers) :
    OneWay way (active (representatives tick sites)) := by
  intro o ho
  obtain ⟨_, hd, rfl⟩ := List.mem_filterMap.mp ho
  obtain ⟨c, hc, hnearest⟩ := List.mem_map.mp hd
  exact hway c hc o (mem_of_nearest hnearest)

/-- The rest behind some sites is what the offers accepted there leave missing. -/
theorem Horizon.toInt_left_of_oneWay {target : Power} {front : List Candidates}
    (hway : ∀ c ∈ front, OneWay way c.offers) (htarget : target.toInt = way.sign * missing) :
    (left tick target front).toInt = way.sign *
      (missing - volume (active (accept target (representatives tick front)))) := by
  have haccepted : OneWay way (active (accept target (representatives tick front))) :=
    oneWay_active (chooses_accept tick target front) hway
  rw [toInt_left (inRange_of_oneWay hway), htarget, haccepted.exactSum_eq, Int.mul_sub]

/-- What the pass does at one of some sites with distinct names. -/
theorem Horizon.activated_iff (tick : Tick) (target : Power) {front back : List Candidates}
    {c : Candidates} (hnodup : ((front ++ c :: back).map (·.site)).Nodup)
    (hway : ∀ d ∈ front ++ c :: back, OneWay way d.offers)
    (htarget : target.toInt = way.sign * missing) :
    ∃ earlier later : List Activation,
      Matcher.activations (front ++ c :: back)
        (accept target (representatives tick (front ++ c :: back))) = earlier ++ later ∧
      (∀ a ∈ earlier, a.site ∈ front.map (·.site)) ∧
      (∀ a ∈ later, a.site ∈ (c :: back).map (·.site)) ∧
      ∀ a : Activation, a.site = c.site → (a ∈ earlier ++ later ↔
        a.command = a.offer.command ∧ Represents tick c.offers a.offer ∧
        a.offer.magnitude.toInt < 2 * (missing - volume (earlier.map (·.offer)))) := by
  have hhere : OneWay way c.offers := hway c (List.mem_append_right front List.mem_cons_self)
  have hchooses : Chooses (accept target (representatives tick front)) front :=
    chooses_accept tick target front
  have hlength : front.length = (accept target (representatives tick front)).length :=
    hchooses.length_eq.symm
  have hrest := @toInt_left_of_oneWay _ tick _ target front
    (fun d hd => hway d (List.mem_append_left (c :: back) hd)) htarget
  rw [← Matcher.offers_activations hchooses] at hrest
  rw [accept_split, Matcher.activations_append hlength]
  refine ⟨_, _, rfl, fun a => Matcher.site_mem_of_activations,
    fun a => Matcher.site_mem_of_activations, fun a ha => ?_⟩
  rw [← Matcher.activations_append hlength,
    Matcher.mem_activations_iff_of_nodup hlength hnodup ha, Matcher.activation,
    Option.map_eq_some_iff]
  constructor
  · rintro ⟨o, haccepted, rfl⟩
    exact ⟨rfl, (step_eq_some_iff hhere hrest).mp haccepted⟩
  · rintro ⟨hcommand, hsmall⟩
    refine ⟨a.offer, (step_eq_some_iff hhere hrest).mpr hsmall, ?_⟩
    rw [← ha, ← hcommand]

/-- How an outcome of the moving horizon comes about and what it reaches, told by the activations in
their order. -/
structure Outcome.Approaches (sites : List SiteId) (book : Book) (outcome : Outcome) : Prop where
  /-- What is activated at a site is its representative, if and only if this is smaller than twice
  what the activations at the sites before it leave missing. -/
  activated_iff : ∀ before site after, sites = before ++ site :: after → ∃ earlier later,
    outcome.activations = earlier ++ later ∧
    (∀ a ∈ earlier, a.site ∈ before) ∧ (∀ a ∈ later, a.site ∈ site :: after) ∧
    ∀ a : Activation, a.site = site → (a ∈ outcome.activations ↔
      a.command = a.offer.command ∧
      Horizon.Represents outcome.tick (usable outcome.target (book.offersFor site)) a.offer ∧
      a.offer.magnitude.toInt <
        2 * (outcome.target.toInt.natAbs - volume (earlier.map (·.offer))))
  /-- Before the last activation the target is not reached. -/
  short : ∀ earlier a later, outcome.activations = earlier ++ a :: later →
    volume (earlier.map (·.offer)) < outcome.target.toInt.natAbs
  /-- The activation that reaches it is the last. -/
  ended : ∀ earlier a later, outcome.activations = earlier ++ a :: later →
    outcome.target.toInt.natAbs ≤ volume ((earlier ++ [a]).map (·.offer)) → later = []
  /-- All activations together stay below twice the target, -/
  bounded : outcome.activations ≠ [] → 0 < volume (outcome.activations.map (·.offer)) ∧
    volume (outcome.activations.map (·.offer)) < 2 * outcome.target.toInt.natAbs
  /-- so they are nearer to it than zero is. -/
  nearer : outcome.activations ≠ [] →
    (outcome.target.toInt - outcome.exactSum).natAbs < outcome.target.toInt.natAbs

namespace Matcher

variable {sites : List SiteId} {target : Power} {book : Book} {selection : Selection}

theorem eq_accept_of_select
    (h : Strategy.movingHorizon.select tick target
      (candidates ⟨.movingHorizon, sites⟩ target book) = .ok selection) :
    selection = Horizon.accept target
      (Horizon.representatives tick (candidates ⟨.movingHorizon, sites⟩ target book)) :=
  Except.ok.inj (h.symm.trans (Horizon.select_eq_ok inRange_of_candidates))

/-- What is activated fills up the target. -/
theorem fills_of_select
    (hselect : Strategy.movingHorizon.select tick target
      (candidates ⟨.movingHorizon, sites⟩ target book) = .ok selection) :
    ∃ way : Direction, OneWay way (active selection) ∧
      target.toInt = way.sign * target.toInt.natAbs ∧
      Fills target.toInt.natAbs (active selection) := by
  obtain ⟨way, hway, htarget⟩ := exists_way ⟨.movingHorizon, sites⟩ target book
  obtain rfl := eq_accept_of_select hselect
  have hchooses := Horizon.chooses_accept tick target
    (candidates ⟨.movingHorizon, sites⟩ target book)
  exact ⟨way, oneWay_active hchooses hway, htarget,
    Horizon.fills_accept (Horizon.oneWay_representatives hway) htarget⟩

/-- What is activated at one of the sites. -/
theorem activated_iff_of_select {before after : List SiteId} {site : SiteId}
    (hnodup : (before ++ site :: after).Nodup)
    (hselect : Strategy.movingHorizon.select tick target
      (candidates ⟨.movingHorizon, before ++ site :: after⟩ target book) = .ok selection) :
    ∃ earlier later,
      activations (candidates ⟨.movingHorizon, before ++ site :: after⟩ target book) selection =
        earlier ++ later ∧
      (∀ a ∈ earlier, a.site ∈ before) ∧ (∀ a ∈ later, a.site ∈ site :: after) ∧
      ∀ a : Activation, a.site = site → (a ∈ earlier ++ later ↔
        a.command = a.offer.command ∧
        Horizon.Represents tick (usable target (book.offersFor site)) a.offer ∧
        a.offer.magnitude.toInt <
          2 * (target.toInt.natAbs - volume (earlier.map (·.offer)))) := by
  obtain ⟨way, hway, htarget⟩ :=
    exists_way ⟨.movingHorizon, before ++ site :: after⟩ target book
  obtain rfl := eq_accept_of_select hselect
  have hcandidates : candidates ⟨.movingHorizon, before ++ site :: after⟩ target book =
      candidates ⟨.movingHorizon, before⟩ target book ++
        ⟨site, usable target (book.offersFor site)⟩ ::
          candidates ⟨.movingHorizon, after⟩ target book := List.map_append
  have hnames := sites_candidates ⟨.movingHorizon, before ++ site :: after⟩ target book
  rw [hcandidates] at hway hnames ⊢
  obtain ⟨earlier, later, heq, hearlier, hlater, hiff⟩ :=
    Horizon.activated_iff tick target (hnames ▸ hnodup) hway htarget
  rw [List.map_cons, sites_candidates] at hlater
  rw [sites_candidates] at hearlier
  exact ⟨earlier, later, heq, hearlier, hlater, hiff⟩

theorem approaches_of_select (hnodup : sites.Nodup)
    (hselect : Strategy.movingHorizon.select tick target
      (candidates ⟨.movingHorizon, sites⟩ target book) = .ok selection)
    (hchooses : Chooses selection (candidates ⟨.movingHorizon, sites⟩ target book)) :
    Outcome.Approaches sites book
      ⟨tick, target, activations (candidates ⟨.movingHorizon, sites⟩ target book) selection⟩ := by
  obtain ⟨way, hone, htarget, hfills⟩ := fills_of_select hselect
  rw [← offers_activations hchooses] at hone hfills
  constructor
  · rintro before site after rfl
    obtain ⟨earlier, later, heq, hearlier, hlater, hiff⟩ :=
      activated_iff_of_select hnodup hselect
    refine ⟨earlier, later, heq, hearlier, hlater, fun a ha => ?_⟩
    rw [heq]
    exact hiff a ha
  · intro earlier a later h
    have hoffers := congrArg (List.map (·.offer)) h
    rw [List.map_append, List.map_cons] at hoffers
    exact hfills.short hone hoffers
  · intro earlier a later h hreached
    have hoffers := congrArg (List.map (·.offer)) h
    rw [List.map_append, List.map_cons] at hoffers
    rw [List.map_append, List.map_singleton] at hreached
    exact List.map_eq_nil_iff.mp (hfills.ended hone hoffers hreached)
  · intro hne
    exact hfills.bounded hone (mt List.map_eq_nil_iff.mp hne)
  · intro hne
    exact hfills.nearer hone (mt List.map_eq_nil_iff.mp hne) htarget

end Matcher

/-- The moving horizon activates the representatives of the sites in their order, each if it is
smaller than twice what the activations before it leave of the target. Only the last activation
reaches the target or goes beyond it. If anything is activated, it adds up to more than nothing and
to less than twice the target, so it is nearer to the target than zero is. -/
theorem meet_horizon_approaches (registered : List SiteId) (book : Book) (tick : Tick)
    (target : Power) :
    ∃ outcome, (Matcher.ofSites .movingHorizon registered).meet tick target book = .ok outcome ∧
      outcome.tick = tick ∧ outcome.target = target ∧ outcome.Valued ∧
      outcome.Approaches registered.eraseDups book := by
  have hnodup := Matcher.nodup_sites_ofSites .movingHorizon registered
  rw [Matcher.ofSites_eq] at hnodup ⊢
  obtain ⟨outcome, -, hmeet, -, hvalued, -⟩ :=
    Matcher.meet_eq_chosen ⟨.movingHorizon, registered.eraseDups⟩ tick target book
  obtain ⟨selection, hselect, hchooses, heq⟩ :=
    Matcher.meet_eq_activations ⟨.movingHorizon, registered.eraseDups⟩ tick target book
  obtain rfl := Except.ok.inj (heq.symm.trans hmeet)
  exact ⟨_, hmeet, rfl, rfl, hvalued, Matcher.approaches_of_select hnodup hselect hchooses⟩

/-- Two times five quintillion goes beyond a target of -2^63, and no later offer is of use. -/
example :
    ((Matcher.ofSites .movingHorizon [⟨"north"⟩, ⟨"south"⟩, ⟨"west"⟩]).meet 0
        (-0x8000000000000000)
        (Book.filled [.add ⟨"west"⟩ ⟨3, 1, .down, 0, 0, 0⟩,
          .add ⟨"north"⟩ ⟨1, 5000000000000000000, .down, 0, 0, 0⟩,
          .add ⟨"south"⟩ ⟨2, 5000000000000000000, .down, 0, 0, 0⟩])).map
      (·.commands.map (·.reference)) = .ok [1, 2] := by
  decide +kernel

end DemandResponse.Matching
