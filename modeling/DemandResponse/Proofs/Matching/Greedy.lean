import DemandResponse.Proofs.Matching.Reach

/-!
# The moving horizon in whole numbers

The pass of the moving horizon carries the rest of the target along, in a subtraction that stops at
the ends of the range. `Greedy` is the same pass in whole numbers: it compares a target with what
was accepted so far, and nothing in it is bounded. The two decide alike at every site. A rest that
was stopped would lie at an end of the range, where it is no closer to zero than the rest before it,
so an offer that is accepted was subtracted in full.
-/

namespace DemandResponse.Matching.Horizon

variable {tick : Tick} {offers : List Offer} {o : Offer}

/-- The offer that stands for its site: the first of those whose reaction time is nearest. -/
def Represents (tick : Tick) (offers : List Offer) (o : Offer) : Prop :=
  FirstBest (fun a b => lead tick a < lead tick b) offers o

theorem strictRanking_lead (tick : Tick) :
    StrictRanking fun a b : Offer => lead tick a < lead tick b where
  asymm h := Nat.lt_asymm h
  cotrans h c := by omega

theorem nearest_eq_some_iff : nearest tick offers = some o ↔ Represents tick offers o := by
  cases offers with
  | nil =>
    constructor
    · intro h
      cases h
    · intro h
      cases FirstBest.mem h
  | cons first rest =>
    have hbest := firstBest_foldl (strictRanking_lead tick) first rest
    rw [nearest, Option.some.injEq]
    constructor
    · rintro rfl
      exact hbest
    · exact fun h => hbest.eq h

theorem nearest_eq_none_iff : nearest tick offers = none ↔ offers = [] := by
  cases offers <;> simp [nearest]

/-- An offer brings the sum of some offers strictly closer to a target. -/
def Closer (target sum : Int) (o : Offer) : Prop :=
  (target - (sum + o.signedMagnitude)).natAbs < (target - sum).natAbs

/-- The greedy pass in whole numbers, over some sites and from the sum of what was accepted before
them. -/
inductive Greedy (tick : Tick) (target : Int) : (sum : Int) → List Candidates → Selection → Prop
  | done (sum : Int) : Greedy tick target sum [] []
  /-- A site without offers stays idle, -/
  | bare {sum : Int} {c : Candidates} {sites : List Candidates} {selection : Selection}
      (hbare : c.offers = []) (hrest : Greedy tick target sum sites selection) :
      Greedy tick target sum (c :: sites) (none :: selection)
  /-- its representative is accepted if it brings the sum closer to the target, -/
  | accepted {sum : Int} {c : Candidates} {o : Offer} {sites : List Candidates}
      {selection : Selection} (hrepresents : Represents tick c.offers o)
      (hcloser : Closer target sum o)
      (hrest : Greedy tick target (sum + o.signedMagnitude) sites selection) :
      Greedy tick target sum (c :: sites) (some o :: selection)
  /-- and is passed over otherwise. -/
  | passedOver {sum : Int} {c : Candidates} {o : Offer} {sites : List Candidates}
      {selection : Selection} (hrepresents : Represents tick c.offers o)
      (hcloser : ¬ Closer target sum o) (hrest : Greedy tick target sum sites selection) :
      Greedy tick target sum (c :: sites) (none :: selection)

/-- The pass in whole numbers has one outcome. -/
theorem Greedy.eq {target sum : Int} {sites : List Candidates} {selection other : Selection}
    (h : Greedy tick target sum sites selection) (hother : Greedy tick target sum sites other) :
    selection = other := by
  induction h generalizing other with
  | done sum =>
    cases hother
    rfl
  | bare hbare hrest ih =>
    cases hother with
    | bare _ hrest' => rw [ih hrest']
    | accepted hrepresents _ _ =>
      cases hbare ▸ FirstBest.mem hrepresents
    | passedOver _ _ hrest' => rw [ih hrest']
  | accepted hrepresents hcloser hrest ih =>
    cases hother with
    | bare hbare _ => cases hbare ▸ FirstBest.mem hrepresents
    | accepted hrepresents' _ hrest' =>
      obtain rfl := FirstBest.eq hrepresents hrepresents'
      rw [ih hrest']
    | passedOver hrepresents' hcloser' _ =>
      obtain rfl := FirstBest.eq hrepresents hrepresents'
      exact absurd hcloser hcloser'
  | passedOver hrepresents hcloser hrest ih =>
    cases hother with
    | bare _ hrest' => rw [ih hrest']
    | accepted hrepresents' hcloser' _ =>
      obtain rfl := FirstBest.eq hrepresents hrepresents'
      exact absurd hcloser' hcloser
    | passedOver _ _ hrest' => rw [ih hrest']

/-- What the decision for one site makes of the rest, and the decision. -/
def step (rest : Power) : Option Offer → Power × Option Offer
  | none => (rest, none)
  | some o =>
    let after := Power.subClamped rest (effect o)
    if Power.distance after 0 < Power.distance rest 0 then (after, some o) else (rest, none)

theorem accept_cons (rest : Power) (representative : Option Offer) (others : List (Option Offer)) :
    accept rest (representative :: others) =
      (step rest representative).2 :: accept (step rest representative).1 others := by
  cases representative with
  | none => rfl
  | some o =>
    rw [accept, step]
    split <;> rfl

/-- Stopped or not, the rest comes closer to zero if and only if it would without being stopped. -/
theorem distance_subClamped_lt_iff (rest : Power) (h : Power.InRange o.signedMagnitude) :
    Power.distance (Power.subClamped rest (effect o)) 0 < Power.distance rest 0 ↔
      (rest.toInt - o.signedMagnitude).natAbs < rest.toInt.natAbs := by
  have hrest := Power.inRange_toInt rest
  have heffect : (effect o).toInt = o.signedMagnitude := Power.toInt_clamp h
  rw [Power.distance, Power.distance, Power.subClamped, Power.toInt_clamp_eq, heffect,
    Int64.toInt_zero]
  unfold Power.InRange Power.least Power.greatest at *
  omega

/-- The two things that can happen to a representative. An accepted one is subtracted in full. -/
theorem step_cases (rest : Power) (h : Power.InRange o.signedMagnitude) :
    ((rest.toInt - o.signedMagnitude).natAbs < rest.toInt.natAbs ∧
      step rest (some o) = (Power.subClamped rest (effect o), some o) ∧
      (Power.subClamped rest (effect o)).toInt = rest.toInt - o.signedMagnitude) ∨
    (¬ (rest.toInt - o.signedMagnitude).natAbs < rest.toInt.natAbs ∧
      step rest (some o) = (rest, none)) := by
  by_cases hcloser : Power.distance (Power.subClamped rest (effect o)) 0 < Power.distance rest 0
  · have hexact := toInt_subClamped_of_closer hcloser
    rw [show (effect o).toInt = o.signedMagnitude from Power.toInt_clamp h] at hexact
    exact Or.inl ⟨(distance_subClamped_lt_iff rest h).mp hcloser, if_pos hcloser, hexact⟩
  · exact Or.inr ⟨mt (distance_subClamped_lt_iff rest h).mpr hcloser, if_neg hcloser⟩

/-- Where an offer is accepted, it is subtracted in full and brings the rest closer to zero. -/
theorem step_of_accepted {rest : Power} {representative : Option Offer}
    (h : ∀ x, representative = some x → Power.InRange x.signedMagnitude)
    (haccepted : (step rest representative).2 = some o) :
    (step rest representative).1 = Power.subClamped rest (effect o) ∧
      (step rest representative).1.toInt = rest.toInt - o.signedMagnitude ∧
      (step rest representative).1.toInt.natAbs < rest.toInt.natAbs := by
  cases representative with
  | none => cases haccepted
  | some x =>
    rcases step_cases rest (h x rfl) with ⟨hlt, hstep, hexact⟩ | ⟨_, hstep⟩
    · rw [hstep] at haccepted ⊢
      obtain rfl := Option.some.inj haccepted
      exact ⟨rfl, hexact, hexact ▸ hlt⟩
    · rw [hstep] at haccepted
      cases haccepted

theorem step_of_idle {rest : Power} {representative : Option Offer}
    (hidle : (step rest representative).2 = none) : (step rest representative).1 = rest := by
  cases representative with
  | none => rfl
  | some x =>
    rw [step] at hidle ⊢
    split at hidle
    · cases hidle
    · next hfarther => rw [if_neg hfarther]

/-- The representatives of some sites. -/
def representatives (tick : Tick) (sites : List Candidates) : List (Option Offer) :=
  sites.map fun c => nearest tick c.offers

/-- The rest that the pass carries along, behind some sites. -/
def left (tick : Tick) (rest : Power) (sites : List Candidates) : Power :=
  (representatives tick sites).foldl (fun rest representative => (step rest representative).1) rest

theorem left_concat (rest : Power) (sites : List Candidates) (c : Candidates) :
    left tick rest (sites ++ [c]) = (step (left tick rest sites) (nearest tick c.offers)).1 := by
  rw [left, representatives, List.map_append, List.foldl_append]
  rfl

/-- Behind some sites the pass goes on with the rest that they leave. -/
theorem accept_append (rest : Power) (front back : List Candidates) :
    accept rest (representatives tick (front ++ back)) =
      accept rest (representatives tick front) ++
        accept (left tick rest front) (representatives tick back) := by
  induction front generalizing rest with
  | nil => rfl
  | cons c front ih =>
    change accept rest (nearest tick c.offers :: representatives tick (front ++ back)) = _
    rw [accept_cons, ih]
    change _ = accept rest (nearest tick c.offers :: representatives tick front) ++ _
    rw [accept_cons]
    rfl

theorem length_accept (rest : Power) (representatives : List (Option Offer)) :
    (accept rest representatives).length = representatives.length := by
  induction representatives generalizing rest with
  | nil => rfl
  | cons representative others ih => rw [accept_cons, List.length_cons, ih, List.length_cons]

variable {sites : List Candidates}

/-- The rest is always the start less the exact sum of what was accepted. -/
theorem toInt_left (h : ∀ c ∈ sites, ∀ o ∈ c.offers, Power.InRange o.signedMagnitude)
    (rest : Power) :
    (left tick rest sites).toInt =
      rest.toInt - exactSum (active (accept rest (representatives tick sites))) := by
  induction sites generalizing rest with
  | nil => exact (Int.sub_zero _).symm
  | cons c sites ih =>
    have hsites := fun rest => ih (fun d hd => h d (List.mem_cons_of_mem c hd)) rest
    change (left tick (step rest (nearest tick c.offers)).1 sites).toInt =
      rest.toInt -
        exactSum (active (accept rest (nearest tick c.offers :: representatives tick sites)))
    rw [accept_cons, hsites]
    cases hnearest : nearest tick c.offers with
    | none => rfl
    | some o =>
      have ho := h c List.mem_cons_self o (mem_of_nearest hnearest)
      rcases step_cases rest ho with ⟨_, hstep, hexact⟩ | ⟨_, hstep⟩
      · rw [hstep, active_cons_some, exactSum_cons, hexact, Int.sub_sub]
      · rw [hstep]
        rfl

/-- The pass decides as the pass in whole numbers does, from a rest that agrees with its sum. -/
theorem greedy_accept {target sum : Int} {rest : Power} (hrest : rest.toInt = target - sum)
    (h : ∀ c ∈ sites, ∀ o ∈ c.offers, Power.InRange o.signedMagnitude) :
    Greedy tick target sum sites (accept rest (representatives tick sites)) := by
  induction sites generalizing sum rest with
  | nil => exact .done sum
  | cons c sites ih =>
    have hsites : ∀ d ∈ sites, ∀ o ∈ d.offers, Power.InRange o.signedMagnitude :=
      fun d hd => h d (List.mem_cons_of_mem c hd)
    change Greedy tick target sum (c :: sites)
      (accept rest (nearest tick c.offers :: representatives tick sites))
    rw [accept_cons]
    cases hnearest : nearest tick c.offers with
    | none => exact .bare (nearest_eq_none_iff.mp hnearest) (ih hrest hsites)
    | some o =>
      have hrepresents := nearest_eq_some_iff.mp hnearest
      have ho := h c List.mem_cons_self o (mem_of_nearest hnearest)
      have hcloser : Closer target sum o ↔
          (rest.toInt - o.signedMagnitude).natAbs < rest.toInt.natAbs := by
        rw [Closer, hrest, Int.sub_sub]
      rcases step_cases rest ho with ⟨hlt, hstep, hexact⟩ | ⟨hlt, hstep⟩
      · rw [hstep]
        refine .accepted hrepresents (hcloser.mpr hlt) (ih ?_ hsites)
        rw [hexact, hrest, Int.sub_sub]
      · rw [hstep]
        exact .passedOver hrepresents (mt hcloser.mp hlt) (ih hrest hsites)

/-- What the pass carries along while it makes a selection. -/
structure Carries (tick : Tick) (target : Power) (sites : List Candidates)
    (selection : Selection) : Prop where
  /-- Behind any of the sites it goes on with the rest that they leave, and this is the target less
  the exact sum of what they accepted. -/
  resumes : ∀ front back, sites = front ++ back → ∃ taken : Selection,
    taken.length = front.length ∧
    selection = taken ++ accept (left tick target front) (representatives tick back) ∧
    (left tick target front).toInt = target.toInt - exactSum (active taken)
  /-- Where an offer is accepted it is subtracted in full, and the rest comes closer to zero. -/
  shrinks : ∀ front c back o, sites = front ++ c :: back →
    selection[front.length]? = some (some o) →
    left tick target (front ++ [c]) = Power.subClamped (left tick target front) (effect o) ∧
    (left tick target (front ++ [c])).toInt = (left tick target front).toInt - o.signedMagnitude ∧
    (left tick target (front ++ [c])).toInt.natAbs < (left tick target front).toInt.natAbs
  /-- Where a site stays idle the rest stays as it is. -/
  stays : ∀ front c back, sites = front ++ c :: back → selection[front.length]? = some none →
    left tick target (front ++ [c]) = left tick target front

/-- The decision for a site is the step from the rest that the sites before it leave. -/
theorem accept_split (rest : Power) (front : List Candidates) (c : Candidates)
    (back : List Candidates) :
    accept rest (representatives tick (front ++ c :: back)) =
      accept rest (representatives tick front) ++
        (step (left tick rest front) (nearest tick c.offers)).2 ::
          accept (step (left tick rest front) (nearest tick c.offers)).1
            (representatives tick back) := by
  rw [accept_append, ← accept_cons]
  rfl

theorem getElem?_accept (rest : Power) (front : List Candidates) (c : Candidates)
    (back : List Candidates) :
    (accept rest (representatives tick (front ++ c :: back)))[front.length]? =
      some (step (left tick rest front) (nearest tick c.offers)).2 := by
  have hlength : (accept rest (representatives tick front)).length = front.length := by
    rw [length_accept, representatives, List.length_map]
  rw [accept_split, List.getElem?_append_right (Nat.le_of_eq hlength), hlength, Nat.sub_self]
  rfl

theorem carries_accept (target : Power)
    (h : ∀ c ∈ sites, ∀ o ∈ c.offers, Power.InRange o.signedMagnitude) :
    Carries tick target sites (accept target (representatives tick sites)) := by
  constructor
  · rintro front back rfl
    refine ⟨accept target (representatives tick front), ?_, accept_append target front back, ?_⟩
    · rw [length_accept, representatives, List.length_map]
    · exact toInt_left (fun c hc => h c (List.mem_append_left back hc)) target
  · rintro front c back o rfl haccepted
    rw [getElem?_accept, Option.some.injEq] at haccepted
    rw [left_concat]
    refine step_of_accepted (fun x hx => ?_) haccepted
    exact h c (List.mem_append_right front List.mem_cons_self) x (mem_of_nearest hx)
  · rintro front c back rfl hidle
    rw [getElem?_accept, Option.some.injEq] at hidle
    rw [left_concat]
    exact step_of_idle hidle

end DemandResponse.Matching.Horizon

namespace DemandResponse.Matching

open Horizon (Greedy Carries)

/-- With contributions in range the moving horizon answers the greedy pass in whole numbers, and
this has no other outcome. The rest that it carries along is never stopped by an offer that it
accepts: it is the target less what was accepted, and comes closer to zero with every acceptance. -/
theorem horizon_select_greedy (tick : Tick) (target : Power) (sites : List Candidates)
    (h : ∀ c ∈ sites, ∀ o ∈ c.offers, Power.InRange o.signedMagnitude) :
    ∃ selection, Strategy.movingHorizon.select tick target sites = .ok selection ∧
      Greedy tick target.toInt 0 sites selection ∧
      (∀ other, Greedy tick target.toInt 0 sites other → other = selection) ∧
      Carries tick target sites selection := by
  have hgreedy : Greedy tick target.toInt 0 sites
      (Horizon.accept target (Horizon.representatives tick sites)) :=
    Horizon.greedy_accept (Int.sub_zero _).symm h
  exact ⟨_, Horizon.select_eq_ok h, hgreedy, fun other hother => hother.eq hgreedy,
    Horizon.carries_accept target h⟩

/-- A target at the lower end of the range, an upward offer of magnitude -2^63 and offers the other
way: after the first site is met, the rest is one kilowatt. -/
def extremes : List Candidates :=
  [⟨⟨"north"⟩, [⟨1, 5, .up, 0, 9, 0⟩, ⟨2, 0x7fffffffffffffff, .down, 0, 4, 0⟩,
      ⟨3, 6, .down, 0, 4, 0⟩]⟩,
    ⟨⟨"south"⟩, [⟨4, -0x8000000000000000, .up, 0, 0, 0⟩]⟩,
    ⟨⟨"east"⟩, []⟩,
    ⟨⟨"west"⟩, [⟨5, -1, .up, 0, 0, 0⟩]⟩]

/-- The nearest northern offer and the western one, which meet the target exactly. -/
def extremesMet : Selection :=
  [some ⟨2, 0x7fffffffffffffff, .down, 0, 4, 0⟩, none, none, some ⟨5, -1, .up, 0, 0, 0⟩]

/-- The southern offer would go far beyond the kilowatt that is left, and is not accepted; the
western one is that kilowatt. -/
theorem horizon_select_extremes :
    (∀ c ∈ extremes, ∀ o ∈ c.offers, Power.InRange o.signedMagnitude) ∧
      Strategy.movingHorizon.select 3 (-0x8000000000000000) extremes = .ok extremesMet ∧
      Greedy 3 (-0x8000000000000000 : Power).toInt 0 extremes extremesMet ∧
      (∀ other, Greedy 3 (-0x8000000000000000 : Power).toInt 0 extremes other →
        other = extremesMet) ∧
      Carries 3 (-0x8000000000000000) extremes extremesMet := by
  have hrange : ∀ c ∈ extremes, ∀ o ∈ c.offers, Power.InRange o.signedMagnitude := by decide
  have hmet : Strategy.movingHorizon.select 3 (-0x8000000000000000) extremes = .ok extremesMet := by
    decide +kernel
  obtain ⟨selection, hselect, hgreedy⟩ :=
    horizon_select_greedy 3 (-0x8000000000000000) extremes hrange
  obtain rfl := Except.ok.inj (hselect.symm.trans hmet)
  exact ⟨hrange, hselect, hgreedy⟩

end DemandResponse.Matching
