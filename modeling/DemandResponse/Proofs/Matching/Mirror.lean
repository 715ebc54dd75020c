import DemandResponse.Proofs.Book.Filling
import DemandResponse.Proofs.Matching.Activations
import DemandResponse.Proofs.Matching.Greedy
import DemandResponse.Proofs.Matching.Promise

/-!
# Up and down are alike

The mirror image of a book offers every magnitude the other way. Against it, the opposite of a
target has the same usable offers, and every choice among them has the opposite sum. Power values
reach one further down than up, so this is seen only as long as nothing comes to the ends of the
range. Then both strategies decide in the mirror as they do in front of it.
-/

namespace DemandResponse

/-- All power values but the least have an opposite. -/
theorem Power.toInt_neg {p : Power} (h : p ≠ Int64.minValue) : (-p).toInt = -p.toInt := by
  have hlo := Int64.le_toInt p
  have hhi := Int64.toInt_lt p
  have hne : p.toInt ≠ -2 ^ 63 := fun heq =>
    h (Int64.toInt_inj.mp (heq.trans Int64.toInt_minValue.symm))
  rw [Int64.toInt_neg]
  apply Int.bmod_eq_of_le <;> omega

namespace Direction

def opposite : Direction → Direction
  | .up => .down
  | .down => .up

@[simp] theorem sign_opposite (way : Direction) : way.opposite.sign = -way.sign := by
  cases way <;> rfl

theorem opposite_inj {way other : Direction} : way.opposite = other.opposite ↔ way = other := by
  cases way <;> cases other <;> decide

theorem towards_neg {target : Power} (h : target ≠ Int64.minValue) :
    towards (-target) = (towards target).map opposite := by
  have hneg := Power.toInt_neg h
  have hup : 0 < -target ↔ target < 0 := by
    rw [Int64.lt_iff_toInt_lt, Int64.lt_iff_toInt_lt, hneg, Int64.toInt_zero]
    omega
  have hdown : -target < 0 ↔ 0 < target := by
    rw [Int64.lt_iff_toInt_lt, Int64.lt_iff_toInt_lt, hneg, Int64.toInt_zero]
    omega
  unfold towards
  simp only [hup, hdown]
  by_cases hpos : 0 < target
  · have hnot : ¬ target < 0 := Int64.lt_asymm hpos
    simp [hpos, hnot, opposite]
  · by_cases hlt : target < 0 <;> simp [hpos, hlt, opposite]

end Direction

namespace Offer

/-- The offer of the same magnitude the other way. -/
def mirrored (o : Offer) : Offer := { o with direction := o.direction.opposite }

@[simp] theorem signedMagnitude_mirrored (o : Offer) :
    o.mirrored.signedMagnitude = -o.signedMagnitude := by
  simp [mirrored, signedMagnitude]

end Offer

namespace Book

/-- An entry of the mirror image of a book. -/
def mirroredEntry (e : SiteId × List Offer) : SiteId × List Offer :=
  (e.1, e.2.map Offer.mirrored)

def mirrored (b : Book) : Book := ⟨b.entries.map mirroredEntry, b.ids⟩

def Filling.mirrored : Filling → Filling
  | .add site offer => .add site offer.mirrored
  | .extend site offers => .extend site (offers.map Offer.mirrored)

@[simp] theorem offersFor_mirrored (b : Book) (site : SiteId) :
    b.mirrored.offersFor site = (b.offersFor site).map Offer.mirrored := by
  have hfind : b.mirrored.entries.find? (fun e => e.1 = site) =
      (b.entries.find? fun e => e.1 = site).map mirroredEntry := List.find?_map
  rw [offersFor, offersFor, hfind]
  cases b.entries.find? fun e => e.1 = site <;> rfl

theorem place_mirrored (site : SiteId) (offers : List Offer)
    (entries : List (SiteId × List Offer)) :
    place site (offers.map Offer.mirrored) (entries.map mirroredEntry) =
      (place site offers entries).map mirroredEntry := by
  induction entries with
  | nil => rfl
  | cons e rest ih =>
    rw [List.map_cons, mirroredEntry, place, place, ih]
    by_cases hsite : e.1 = site <;> simp [hsite, mirroredEntry]

theorem add_mirrored (b : Book) (site : SiteId) (offer : Offer) :
    b.mirrored.add site offer.mirrored = (b.add site offer).map mirrored := by
  unfold add
  by_cases hid : offer.id ∈ b.ids
  · rw [if_pos hid, if_pos (show offer.mirrored.id ∈ b.mirrored.ids from hid)]
    rfl
  · rw [if_neg hid, if_neg (show offer.mirrored.id ∉ b.mirrored.ids from hid)]
    have hplace := place_mirrored site [offer] b.entries
    show Except.ok (Book.mk (place site [offer.mirrored] (b.entries.map mirroredEntry)) _) = _
    rw [← List.map_singleton, hplace]
    rfl

theorem addAll_mirrored (b : Book) (site : SiteId) (offers : List Offer) :
    addAll site (offers.map Offer.mirrored) b.mirrored =
      ((addAll site offers b).1, (addAll site offers b).2.mirrored) := by
  induction offers generalizing b with
  | nil => rfl
  | cons offer rest ih =>
    rw [List.map_cons, addAll, addAll, add_mirrored]
    cases b.add site offer with
    | error fault => rfl
    | ok b' => exact ih b'

theorem perform_mirrored (b : Book) (call : Filling) :
    (b.mirrored.perform call.mirrored).2 = (b.perform call).2.mirrored := by
  cases call with
  | add site offer =>
    rw [Filling.mirrored, perform, perform, add_mirrored]
    cases b.add site offer <;> rfl
  | extend site offers =>
    have hmention : b.mirrored.mention site = (b.mention site).mirrored := by
      rw [mention, mention, mirrored, mirrored, ← place_mirrored]
      rfl
    show (addAll site (offers.map Offer.mirrored) (b.mirrored.mention site)).2 = _
    rw [hmention, addAll_mirrored]
    rfl

/-- The mirror image of a book is filled by the mirror images of its calls. -/
theorem filled_mirrored (calls : List Filling) :
    filled (calls.map Filling.mirrored) = (filled calls).mirrored := by
  induction calls using List.reverseRecOn with
  | nil => rfl
  | append_singleton calls call ih =>
    rw [List.map_append, List.map_singleton, filled_concat, ih, perform_mirrored, filled_concat]

end Book

namespace Matching

open BestFit (Chooses Ahead combinations rank)
open Horizon (Greedy Represents Closer)

def Candidates.mirrored (c : Candidates) : Candidates := ⟨c.site, c.offers.map Offer.mirrored⟩

def Selection.mirrored (selection : Selection) : Selection :=
  selection.map (Option.map Offer.mirrored)

/-- The same command makes good on the offer in the mirror. -/
def Activation.mirrored (a : Activation) : Activation := { a with offer := a.offer.mirrored }

def Outcome.mirrored (outcome : Outcome) : Outcome :=
  ⟨outcome.tick, -outcome.target, outcome.activations.map Activation.mirrored⟩

variable {target : Power} {sites : List Candidates} {selection : Selection} {way : Direction}
  {tick : Tick}

theorem exactSum_mirrored (offers : List Offer) :
    exactSum (offers.map Offer.mirrored) = -exactSum offers := by
  induction offers with
  | nil => rfl
  | cons o rest ih =>
    rw [List.map_cons, exactSum_cons, exactSum_cons, ih, Offer.signedMagnitude_mirrored]
    omega

theorem active_mirrored (selection : Selection) :
    active (Selection.mirrored selection) = (active selection).map Offer.mirrored := by
  rw [active, active, Selection.mirrored, List.filterMap_map, List.map_filterMap]
  rfl

theorem usable_mirrored (htarget : target ≠ Int64.minValue) (offers : List Offer) :
    usable (-target) (offers.map Offer.mirrored) = (usable target offers).map Offer.mirrored := by
  unfold usable
  rw [Direction.towards_neg htarget]
  cases Direction.towards target with
  | none => rfl
  | some way =>
    show (offers.map Offer.mirrored).filter _ = (offers.filter _).map Offer.mirrored
    rw [List.filter_map]
    congr 2
    funext o
    show decide (o.direction.opposite = way.opposite ∧ 0 < o.magnitude) = _
    simp only [Direction.opposite_inj]

theorem Matcher.candidates_mirrored (m : Matcher) (htarget : target ≠ Int64.minValue)
    (book : Book) :
    m.candidates (-target) book.mirrored = (m.candidates target book).map Candidates.mirrored := by
  rw [candidates, candidates, List.map_map]
  congr 1
  funext site
  simp [usable_mirrored htarget, Candidates.mirrored]

theorem peak_mirrored (offers : List Offer) : peak (offers.map Offer.mirrored) = peak offers := by
  induction offers with
  | nil => rfl
  | cons o rest ih =>
    rw [List.map_cons, peak, peak, ih]
    rfl

theorem combinedPeak_mirrored (sites : List Candidates) :
    combinedPeak (sites.map Candidates.mirrored) = combinedPeak sites := by
  induction sites with
  | nil => rfl
  | cons c rest ih =>
    rw [List.map_cons, combinedPeak, combinedPeak, ih]
    show peak (c.offers.map Offer.mirrored) + _ = _
    rw [peak_mirrored]

theorem OneWay.mirrored {offers : List Offer} (h : OneWay way offers) :
    OneWay way.opposite (offers.map Offer.mirrored) := by
  intro o ho
  obtain ⟨x, hx, rfl⟩ := List.mem_map.mp ho
  obtain ⟨hway, hpos⟩ := h x hx
  exact ⟨congrArg Direction.opposite hway, hpos⟩

theorem oneWay_mirrored (h : ∀ c ∈ sites, OneWay way c.offers) :
    ∀ c ∈ sites.map Candidates.mirrored, OneWay way.opposite c.offers := by
  intro c hc
  obtain ⟨d, hd, rfl⟩ := List.mem_map.mp hc
  exact (h d hd).mirrored

theorem chooses_mirrored (h : Chooses selection sites) :
    Chooses (Selection.mirrored selection) (sites.map Candidates.mirrored) := by
  unfold Chooses Selection.mirrored at *
  rw [List.forall₂_map_left_iff, List.forall₂_map_right_iff]
  refine h.imp fun decision c hd => ?_
  rcases hd with rfl | ⟨o, ho, rfl⟩
  · exact Or.inl rfl
  · exact Or.inr ⟨o.mirrored, List.mem_map_of_mem ho, rfl⟩

theorem BestFit.combinations_mirrored (sites : List Candidates) :
    combinations (sites.map Candidates.mirrored) =
      (combinations sites).map Selection.mirrored := by
  induction sites with
  | nil => rfl
  | cons c rest ih =>
    rw [List.map_cons, combinations, combinations, ih, List.flatMap_map, List.map_flatMap]
    congr 1
    funext selection
    have hchoices : choices c.mirrored = (choices c).map (Option.map Offer.mirrored) := by
      simp [choices, Candidates.mirrored]
    rw [hchoices, List.map_map, List.map_map]
    rfl

/-- In the mirror a combination is ranked as in front of it, as long as no sum is clamped. -/
theorem BestFit.rank_mirrored (htarget : target ≠ Int64.minValue)
    (hway : ∀ c ∈ sites, OneWay way c.offers) (hpeaks : combinedPeak sites ≤ Power.greatest)
    (h : Chooses selection sites) :
    rank (-target) (Selection.mirrored selection) = rank target selection := by
  have hdeviation : (rank (-target) (Selection.mirrored selection)).deviation =
      (rank target selection).deviation := by
    rw [deviation_rank target hway hpeaks h, deviation_rank (-target) (oneWay_mirrored hway)
      (by rwa [combinedPeak_mirrored]) (chooses_mirrored h), active_mirrored, exactSum_mirrored,
      Power.toInt_neg htarget]
    omega
  have hids : (active (Selection.mirrored selection)).map (·.id) =
      (active selection).map (·.id) := by
    rw [active_mirrored, List.map_map]
    rfl
  have hactive : (active (Selection.mirrored selection)).length = (active selection).length := by
    rw [active_mirrored, List.length_map]
  show Ranking.mk (rank (-target) (Selection.mirrored selection)).deviation _ _ = _
  rw [hdeviation, hids, hactive]
  rfl

/-- The first of the best combinations is the same in the mirror. -/
theorem BestFit.shown_mirrored (htarget : target ≠ Int64.minValue)
    (hway : ∀ c ∈ sites, OneWay way c.offers) (hpeaks : combinedPeak sites ≤ Power.greatest) :
    shown (sites.map Candidates.mirrored)
        (best (-target) (sites.map Candidates.mirrored)).cursor =
      Selection.mirrored (shown sites (best target sites).cursor) := by
  have hfirst := firstBest_shown target sites
  have hmirror : FirstBest
      (fun a b => Ahead (-target) (Selection.mirrored a) (Selection.mirrored b))
      (combinations sites) (shown sites (best target sites).cursor) := by
    -- only combinations have their sum mirrored, others may be clamped
    apply hfirst.congr
    intro a ha b hb
    rw [Ahead, Ahead,
      rank_mirrored htarget hway hpeaks (mem_combinations_iff.mp ha),
      rank_mirrored htarget hway hpeaks (mem_combinations_iff.mp hb)]
  have hbest := firstBest_shown (-target) (sites.map Candidates.mirrored)
  rw [combinations_mirrored] at hbest
  exact hbest.eq hmirror.map

theorem Horizon.Represents.mirrored {offers : List Offer} {o : Offer}
    (h : Represents tick offers o) :
    Represents tick (offers.map Offer.mirrored) o.mirrored := FirstBest.map h

theorem Horizon.closer_mirrored {t s : Int} {o : Offer} :
    Closer (-t) (-s) o.mirrored ↔ Closer t s o := by
  unfold Closer
  rw [Offer.signedMagnitude_mirrored]
  omega

/-- The pass in whole numbers is the same in the mirror, one step after the other. -/
theorem Horizon.Greedy.mirrored {t s : Int} (h : Greedy tick t s sites selection) :
    Greedy tick (-t) (-s) (sites.map Candidates.mirrored) (Selection.mirrored selection) := by
  induction h with
  | done sum => exact .done (-sum)
  | bare hbare _ ih =>
    apply Greedy.bare _ ih
    show List.map _ _ = []
    rw [hbare, List.map_nil]
  | accepted hrepresents hcloser _ ih =>
    apply Greedy.accepted hrepresents.mirrored (closer_mirrored.mpr hcloser)
    rw [Offer.signedMagnitude_mirrored, ← Int.neg_add]
    exact ih
  | passedOver hrepresents hcloser _ ih =>
    exact .passedOver hrepresents.mirrored (mt closer_mirrored.mp hcloser) ih

/-- So is the pass that runs, as it decides like the one in whole numbers. -/
theorem Horizon.accept_mirrored (htarget : target ≠ Int64.minValue)
    (hway : ∀ c ∈ sites, OneWay way c.offers) :
    accept (-target) (representatives tick (sites.map Candidates.mirrored)) =
      Selection.mirrored (accept target (representatives tick sites)) := by
  have hgreedy : Greedy tick target.toInt 0 sites
      (accept target (representatives tick sites)) :=
    greedy_accept (Int.sub_zero _).symm (inRange_of_oneWay hway)
  have hmirror : Greedy tick (-target).toInt 0 (sites.map Candidates.mirrored)
      (accept (-target) (representatives tick (sites.map Candidates.mirrored))) :=
    greedy_accept (Int.sub_zero _).symm (inRange_of_oneWay (oneWay_mirrored hway))
  rw [Power.toInt_neg htarget] at hmirror
  exact hmirror.eq hgreedy.mirrored

/-- Either strategy decides in the mirror as it does in front of it. -/
theorem Strategy.select_mirrored (strategy : Strategy) (htarget : target ≠ Int64.minValue)
    (hway : ∀ c ∈ sites, OneWay way c.offers) (hpeaks : combinedPeak sites ≤ Power.greatest)
    (hselect : strategy.select tick target sites = .ok selection) :
    strategy.select tick (-target) (sites.map Candidates.mirrored) =
      .ok (Selection.mirrored selection) := by
  have hrange := inRange_of_oneWay hway
  have hrange' := inRange_of_oneWay (oneWay_mirrored hway)
  cases strategy with
  | exhaustive =>
    obtain rfl := Except.ok.inj ((BestFit.select_eq_ok hrange).symm.trans hselect)
    rw [← BestFit.shown_mirrored htarget hway hpeaks]
    exact BestFit.select_eq_ok hrange'
  | movingHorizon =>
    obtain rfl := Except.ok.inj ((Horizon.select_eq_ok hrange).symm.trans hselect)
    show Horizon.select tick (-target) _ = _
    rw [Horizon.select_eq_ok hrange']
    exact congrArg Except.ok (Horizon.accept_mirrored htarget hway)

theorem Matcher.activations_mirrored (sites : List Candidates) (selection : Selection) :
    activations (sites.map Candidates.mirrored) (Selection.mirrored selection) =
      (activations sites selection).map Activation.mirrored := by
  induction sites generalizing selection with
  | nil => rfl
  | cons c rest ih =>
    match selection with
    | [] => rfl
    | none :: selection => exact ih selection
    | some o :: selection => exact congrArg (_ :: ·) (ih selection)

/-- If the book promises power values only, the peaks of all candidates are one as well. -/
theorem Matcher.exists_oneWay_peaks {m : Matcher} {book : Book} (hbook : book.sites.Nodup)
    (hnodup : m.sites.Nodup) (hfit : ∀ way, promise way book.entries ≤ Power.greatest)
    (target : Power) :
    ∃ way, (∀ c ∈ m.candidates target book, OneWay way c.offers) ∧
      combinedPeak (m.candidates target book) ≤ Power.greatest := by
  cases htowards : Direction.towards target with
  | some way =>
    refine ⟨way, oneWay_of_towards htowards, ?_⟩
    exact Int.le_trans (combinedPeak_candidates_le hbook hnodup htowards) (hfit way)
  | none =>
    obtain ⟨way, hway⟩ := m.oneWay_candidates target book
    have hpeaks : combinedPeak (m.candidates target book) = 0 := by
      apply combinedPeak_of_bare
      intro c hc
      rw [(mem_candidates hc).2, usable, htowards]
    exact ⟨way, hway, hpeaks ▸ by decide⟩

/-- A matching step in the mirror has the mirror image of the outcome. -/
theorem Matcher.meet_eq_mirrored {m : Matcher} {book : Book} (htarget : target ≠ Int64.minValue)
    (hway : ∀ c ∈ m.candidates target book, OneWay way c.offers)
    (hpeaks : combinedPeak (m.candidates target book) ≤ Power.greatest) (tick : Tick) :
    ∃ outcome, m.meet tick target book = .ok outcome ∧
      m.meet tick (-target) book.mirrored = .ok outcome.mirrored ∧ outcome.target = target ∧
      OneWay way (outcome.activations.map (·.offer)) ∧
      way.sign * outcome.exactSum ≤ Power.greatest := by
  obtain ⟨selection, hselect, hchooses, hmeet⟩ := m.meet_eq_activations tick target book
  obtain ⟨other, hother, _, hmeet'⟩ := m.meet_eq_activations tick (-target) book.mirrored
  rw [m.candidates_mirrored htarget] at hother hmeet'
  have hmirror := m.strategy.select_mirrored htarget hway hpeaks hselect
  obtain rfl := Except.ok.inj (hmirror.symm.trans hother)
  rw [activations_mirrored] at hmeet'
  refine ⟨_, hmeet, hmeet', rfl, ?_, ?_⟩
  · rw [offers_activations hchooses]
    exact oneWay_active hchooses hway
  · rw [Outcome.exactSum, offers_activations hchooses]
    exact Int.le_trans (exactSum_le_combinedPeak hchooses hway) hpeaks

/-- An outcome whose sum has an opposite, and its mirror image, evaluate to opposite sums. -/
theorem Outcome.evaluates_mirrored {outcome : Outcome} (htarget : outcome.target ≠ Int64.minValue)
    (hway : OneWay way (outcome.activations.map (·.offer)))
    (hsum : way.sign * outcome.exactSum ≤ Power.greatest) :
    ∃ sum opposite deviation,
      outcome.achieved = .ok sum ∧ outcome.mirrored.achieved = .ok opposite ∧
      opposite.toInt = -sum.toInt ∧
      outcome.deviation = .ok deviation ∧ outcome.mirrored.deviation = .ok deviation := by
  have hoffers : outcome.mirrored.activations.map (·.offer) =
      (outcome.activations.map (·.offer)).map Offer.mirrored := by
    rw [mirrored, List.map_map, List.map_map]
    rfl
  have hopposite : outcome.mirrored.exactSum = -outcome.exactSum := by
    rw [exactSum, hoffers, exactSum_mirrored]
    rfl
  have hway' : OneWay way.opposite (outcome.mirrored.activations.map (·.offer)) :=
    hoffers ▸ hway.mirrored
  have hrange : Power.InRange outcome.exactSum :=
    way.inRange_of_sign_mul hway.exactSum_nonneg hsum
  have hrange' : Power.InRange outcome.mirrored.exactSum := by
    apply way.opposite.inRange_of_sign_mul hway'.exactSum_nonneg
    rw [exactSum_offers, hopposite, Direction.sign_opposite, Int.neg_mul_neg]
    exact hsum
  obtain ⟨⟨sum, hachieved, hvalue⟩, hdeviation, _⟩ := (valued_of_oneWay hway).exact hrange
  obtain ⟨⟨opposite, hachieved', hvalue'⟩, hdeviation', _⟩ :=
    (valued_of_oneWay hway').exact hrange'
  refine ⟨sum, opposite, _, hachieved, hachieved', ?_, hdeviation, ?_⟩
  · rw [hvalue, hvalue', hopposite]
  · have htarget' : outcome.mirrored.target.toInt = -outcome.target.toInt :=
      Power.toInt_neg htarget
    rw [hdeviation', hopposite, htarget']
    congr 1
    omega

/-- From the mirror image of a book both strategies activate the mirror images of the same offers
against the opposite target: the same ids at the same sites in the same order, with the opposite sum
and the same deviation. This holds for every target that has an opposite, as long as what the book
promises in either direction is a power value. -/
theorem meet_mirrored (strategy : Strategy) (registered : List SiteId)
    (calls : List Book.Filling) (tick : Tick) (target : Power)
    (htarget : target ≠ Int64.minValue)
    (hfit : ∀ way, promise way (Book.filled calls).entries ≤ Power.greatest) :
    Book.filled (calls.map Book.Filling.mirrored) = (Book.filled calls).mirrored ∧
    ∃ outcome sum opposite deviation,
      (Matcher.ofSites strategy registered).meet tick target (Book.filled calls) =
        .ok outcome ∧
      (Matcher.ofSites strategy registered).meet tick (-target) (Book.filled calls).mirrored =
        .ok outcome.mirrored ∧
      outcome.achieved = .ok sum ∧ outcome.mirrored.achieved = .ok opposite ∧
      opposite.toInt = -sum.toInt ∧
      outcome.deviation = .ok deviation ∧ outcome.mirrored.deviation = .ok deviation := by
  have hbook := (Book.coherent_filled calls).sites_nodup
  have hnodup := Matcher.nodup_sites_ofSites strategy registered
  obtain ⟨way, hway, hpeaks⟩ := Matcher.exists_oneWay_peaks hbook hnodup hfit target
  obtain ⟨outcome, hmeet, hmeet', rfl, hone, hsum⟩ :=
    Matcher.meet_eq_mirrored htarget hway hpeaks tick
  obtain ⟨sum, opposite, deviation, hevaluates⟩ :=
    Outcome.evaluates_mirrored htarget hone hsum
  exact ⟨Book.filled_mirrored calls, outcome, sum, opposite, deviation, hmeet, hmeet', hevaluates⟩

/-- Two sites with offers both ways, and a call that is refused, as it repeats an id. -/
def swings : List Book.Filling :=
  [.extend ⟨"north"⟩ [⟨1, 4, .up, 0, 0, 0⟩, ⟨2, 6, .down, 0, 0, 0⟩],
    .extend ⟨"south"⟩ [⟨3, 10, .up, 0, 0, 0⟩, ⟨4, 3, .up, 0, 0, 0⟩],
    .add ⟨"south"⟩ ⟨1, 9, .down, 0, 0, 0⟩]

theorem meet_mirrored_swings :
    (8 : Power) ≠ Int64.minValue ∧
      (∀ way, promise way (Book.filled swings).entries ≤ Power.greatest) ∧
      ∃ outcome sum opposite deviation,
        (Matcher.ofSites .exhaustive [⟨"north"⟩, ⟨"south"⟩]).meet 0 8 (Book.filled swings) =
          .ok outcome ∧
        (Matcher.ofSites .exhaustive [⟨"north"⟩, ⟨"south"⟩]).meet 0 (-8)
          (Book.filled swings).mirrored = .ok outcome.mirrored ∧
        outcome.achieved = .ok sum ∧ outcome.mirrored.achieved = .ok opposite ∧
        opposite.toInt = -sum.toInt ∧
        outcome.deviation = .ok deviation ∧ outcome.mirrored.deviation = .ok deviation := by
  have hfit : ∀ way, promise way (Book.filled swings).entries ≤ Power.greatest := by
    intro way
    cases way <;> decide +kernel
  have hne : (8 : Power) ≠ Int64.minValue := by decide
  exact ⟨hne, hfit, (meet_mirrored .exhaustive _ swings 0 8 hne hfit).2⟩

end Matching

end DemandResponse
