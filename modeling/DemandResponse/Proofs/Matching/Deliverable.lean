import DemandResponse.Proofs.Aggregator.History
import DemandResponse.Proofs.Book.Record
import DemandResponse.Proofs.Matching.Approach
import DemandResponse.Proofs.Matching.Promise
import Mathlib.Order.Bounds.Defs

/-!
# What a book can deliver

Only one offer of a site can be active at a time. What a book can deliver in a direction is the most
that such a selection adds up to, up to the end of the range of power values: every site gives its
greatest offer, and no site keeps another from it. No matching step activates more. Offers that are
not negative leave limits that are not negative either, so a gathered book always makes a band.
-/

namespace DemandResponse

open Matching (Matcher volume peak peak_nonneg magnitude_le_peak
  exists_magnitude_eq_peak)

namespace Book

variable {b : Book} {way : Direction}

section Sound

variable {offers : List Offer}

theorem Sound.place {entries : List (SiteId × List Offer)} (h : Sound entries) (site : SiteId)
    (hoffers : ∀ o ∈ offers, 0 ≤ o.magnitude) : Sound (place site offers entries) := by
  induction entries with
  | nil => exact List.forall_mem_singleton.mpr hoffers
  | cons e rest ih =>
    obtain ⟨hfirst, hrest⟩ := List.forall_mem_cons.mp h
    rw [Book.place]
    split
    · apply List.forall_mem_cons.mpr ⟨?_, hrest⟩
      intro o ho
      rcases List.mem_append.mp ho with ho | ho
      · exact hfirst o ho
      · exact hoffers o ho
    · exact List.forall_mem_cons.mpr ⟨hfirst, ih hrest⟩

theorem Sound.add (h : Sound b.entries) {site : SiteId} {offer : Offer} {b' : Book}
    (hoffer : 0 ≤ offer.magnitude) (hadd : b.add site offer = .ok b') : Sound b'.entries := by
  unfold Book.add at hadd
  split at hadd
  · cases hadd
  · obtain rfl := Except.ok.inj hadd
    exact h.place site (List.forall_mem_singleton.mpr hoffer)

theorem Sound.addAll (h : Sound b.entries) (site : SiteId)
    (hoffers : ∀ o ∈ offers, 0 ≤ o.magnitude) : Sound (addAll site offers b).2.entries := by
  induction offers generalizing b with
  | nil => exact h
  | cons offer rest ih =>
    obtain ⟨hoffer, hrest⟩ := List.forall_mem_cons.mp hoffers
    rw [Book.addAll]
    split
    · next b' hadd => exact ih (h.add hoffer hadd) hrest
    · exact h

theorem Sound.perform (h : Sound b.entries) {call : Filling}
    (hcall : ∀ o ∈ call.offers, 0 ≤ o.magnitude) : Sound (b.perform call).2.entries := by
  cases call with
  | add site offer =>
    rw [Book.perform]
    split
    · next b' hadd => exact h.add (hcall offer (List.mem_singleton.mpr rfl)) hadd
    · exact h
  | extend site offers =>
    apply Sound.addAll
    · exact h.place site (List.forall_mem_nil _)
    · exact hcall

/-- Calls that put forward no negative magnitude leave none in the book, however they end. -/
theorem sound_filled {calls : List Filling}
    (h : ∀ call ∈ calls, ∀ o ∈ call.offers, 0 ≤ o.magnitude) : Sound (filled calls).entries := by
  induction calls using List.reverseRecOn with
  | nil => exact List.forall_mem_nil _
  | append_singleton calls call ih =>
    rw [filled_concat]
    apply Sound.perform
    · exact ih fun c hc => h c (List.mem_append_left _ hc)
    · exact h call (List.mem_append_right _ (List.mem_singleton.mpr rfl))

end Sound

section Selections

variable {choice : SiteId → Option Offer}

/-- At most one offer per site, and only of those that the book lists there. -/
def Selects (b : Book) (choice : SiteId → Option Offer) : Prop :=
  ∀ site o, choice site = some o → o ∈ b.offersFor site

/-- What the offers that are chosen at some sites add up to in one direction. -/
def gained (way : Direction) (choice : SiteId → Option Offer) (sites : List SiteId) : Int :=
  volume ((sites.filterMap choice).filter fun o => o.direction = way)

theorem gained_cons (way : Direction) (choice : SiteId → Option Offer) (site : SiteId)
    (rest : List SiteId) :
    gained way choice (site :: rest) = gained way choice [site] + gained way choice rest := by
  unfold gained
  cases hchoice : choice site with
  | none => simp [hchoice]
  | some o => by_cases hway : o.direction = way <;> simp [hchoice, hway]

/-- One offer of a site is at most its greatest. -/
theorem Selects.gained_singleton_le (h : b.Selects choice) (way : Direction) (site : SiteId) :
    gained way choice [site] ≤ peak ((b.offersFor site).filter fun o => o.direction = way) := by
  have hpeak := peak_nonneg ((b.offersFor site).filter fun o => o.direction = way)
  unfold gained
  cases hchoice : choice site with
  | none => simpa [hchoice] using hpeak
  | some o =>
    by_cases hway : o.direction = way
    · have hlisted : o ∈ (b.offersFor site).filter fun o => o.direction = way :=
        List.mem_filter.mpr ⟨h site o hchoice, decide_eq_true hway⟩
      simpa [hchoice, hway] using magnitude_le_peak hlisted
    · simpa [hchoice, hway] using hpeak

/-- No selection gains more than its sites promise. -/
theorem Selects.gained_le (h : b.Selects choice) (way : Direction) (sites : List SiteId) :
    gained way choice sites ≤ promise way (sites.map fun site => (site, b.offersFor site)) := by
  induction sites with
  | nil => exact Int.le_refl 0
  | cons site rest ih =>
    rw [gained_cons]
    exact Int.add_le_add (h.gained_singleton_le way site) ih

/-- The greatest offer of a site gains its peak. -/
theorem exists_gained_eq_peak (b : Book) (way : Direction) (site : SiteId) :
    ∃ decision : Option Offer, (∀ o, decision = some o → o ∈ b.offersFor site) ∧
      gained way (fun _ => decision) [site] =
        peak ((b.offersFor site).filter fun o => o.direction = way) := by
  by_cases hzero : peak ((b.offersFor site).filter fun o => o.direction = way) = 0
  · refine ⟨none, fun o h => ?_, hzero.symm⟩
    cases h
  · obtain ⟨o, ho, hmagnitude⟩ := exists_magnitude_eq_peak hzero
    obtain ⟨hlisted, hway⟩ := List.mem_filter.mp ho
    refine ⟨some o, fun x hx => Option.some.inj hx ▸ hlisted, ?_⟩
    rw [← hmagnitude]
    simp [gained, of_decide_eq_true hway]

/-- The greatest offers of all sites together gain what the sites promise. -/
theorem exists_selects_promise (b : Book) (way : Direction) :
    ∃ choice, b.Selects choice ∧ ∀ sites : List SiteId,
      gained way choice sites = promise way (sites.map fun site => (site, b.offersFor site)) := by
  choose choice hlisted hpeak using b.exists_gained_eq_peak way
  refine ⟨choice, hlisted, fun sites => ?_⟩
  induction sites with
  | nil => rfl
  | cons site rest ih =>
    rw [gained_cons, ih]
    exact congrArg (· + _) (hpeak site)

/-- What the sites promise is the most that one offer per site adds up to. -/
theorem isGreatest_promise (hsites : b.sites.Nodup) (way : Direction) :
    IsGreatest {x | ∃ choice, b.Selects choice ∧ gained way choice b.sites = x}
      (promise way b.entries) := by
  have hentries := map_offersFor hsites
  constructor
  · obtain ⟨choice, hselects, hgained⟩ := b.exists_selects_promise way
    refine ⟨choice, hselects, ?_⟩
    rw [hgained, hentries]
  · rintro x ⟨choice, hselects, rfl⟩
    rw [← hentries]
    exact hselects.gained_le way b.sites

end Selections

section Gathering

/-- The only thing that can be wrong with an offer is that its id is known. -/
theorem fault_of_addAll {site : SiteId} {offers : List Offer} {fault : Fault}
    (h : (addAll site offers b).1 = .error fault) : ∃ id, fault = .repeatedOffer id := by
  induction offers generalizing b with
  | nil => cases h
  | cons offer rest ih =>
    rw [addAll, add] at h
    by_cases hid : offer.id ∈ b.ids
    · rw [if_pos hid] at h
      exact ⟨offer.id, (Except.error.inj h).symm⟩
    · rw [if_neg hid] at h
      exact ih h

/-- Gathering fills the book with the offers of one site after the other, or repeats an id. -/
theorem extendAll_cases (entries : List (SiteId × List Offer)) (b : Book) :
    extendAll entries b =
        (.ok (), (entries.map fun e => Filling.extend e.1 e.2).foldl
          (fun b call => (b.perform call).2) b) ∨
      ∃ id b', extendAll entries b = (.error (.repeatedOffer id), b') := by
  induction entries generalizing b with
  | nil => exact Or.inl rfl
  | cons e rest ih =>
    obtain ⟨site, offers⟩ := e
    rw [List.map_cons, List.foldl_cons, extendAll]
    show _ = (_, List.foldl _ (b.extend site offers).2 _) ∨ _
    cases hanswer : b.extend site offers with
    | mk answer b' =>
      cases answer with
      | ok _ => exact ih b'
      | error fault =>
        obtain ⟨id, rfl⟩ := fault_of_addAll (congrArg Prod.fst hanswer)
        exact Or.inr ⟨id, b', rfl⟩

end Gathering

end Book

/-- A matching step activates no more than the book promises for the direction of its target. -/
theorem Matching.Matcher.volume_le_promise {m : Matcher} {book : Book} {target : Power}
    {way : Direction} (hbook : book.sites.Nodup) (hnodup : m.sites.Nodup)
    (h : Direction.towards target = some way) (tick : Tick) :
    ∃ outcome, m.meet tick target book = .ok outcome ∧
      volume (outcome.activations.map (·.offer)) ≤ promise way book.entries := by
  obtain ⟨outcome, selection, hmeet, _, _, _, hchooses, hoffers⟩ :=
    m.meet_eq_chosen tick target book
  have hway := @Matcher.oneWay_of_towards way m target book h
  have hone := oneWay_active hchooses hway
  refine ⟨outcome, hmeet, ?_⟩
  calc volume (outcome.activations.map (·.offer))
      = way.sign * exactSum (active selection) := by
        rw [hoffers, hone.exactSum_eq]
        cases way <;> simp only [Direction.sign] <;> omega
    _ ≤ combinedPeak (m.candidates target book) := exactSum_le_combinedPeak hchooses hway
    _ ≤ promise way book.entries := combinedPeak_candidates_le hbook hnodup h

namespace Aggregator

variable {σ : Type}

/-- The calls by which an aggregator gathers what its sites offer. -/
def fillings (a : Aggregator σ) (w : σ) : List Book.Filling :=
  (a.offering w).map fun e => .extend e.1 e.2

/-- A poll answers the limits of the book that it gathers, or the id that comes again; the band is
never at fault. -/
theorem capacity_cases {a : Aggregator σ} {w : σ}
    (hsound : Book.Sound (Book.filled (a.fillings w)).entries) :
    a.capacity w =
        (.ok ⟨(Book.filled (a.fillings w)).deliverable .down,
          (Book.filled (a.fillings w)).deliverable .up⟩,
          { a with book := .filled (a.fillings w) }) ∨
      ∃ id, a.capacity w = (.error (.repeatedOffer id), a) := by
  rcases Book.extendAll_cases (a.offering w) .empty with hfilled | ⟨id, b, hrepeated⟩
  · left
    have hgather : a.gather w = .ok (Book.filled (a.fillings w)) := by
      rw [gather]
      exact hfilled ▸ rfl
    rw [capacity, hgather, ← Book.band_deliverable hsound]
  · right
    have hgather : a.gather w = .error (.repeatedOffer id) := by
      rw [gather]
      exact hrepeated ▸ rfl
    exact ⟨id, by rw [capacity, hgather]⟩

end Aggregator

namespace Book

/-- An integer is the most that a book can deliver in one direction. -/
structure Delivers (b : Book) (way : Direction) (most : Int) : Prop where
  /-- Some selection of one offer per site adds up to it, and none adds up to more. -/
  greatest : IsGreatest {x | ∃ choice, b.Selects choice ∧ gained way choice b.sites = x} most
  /-- The book tells it, up to the end of the range. -/
  deliverable_eq : (b.deliverable way).toInt = min Power.greatest most
  nonneg : 0 ≤ b.deliverable way
  /-- No matching step for a target of this direction activates more. -/
  bounded : ∀ (strategy : Matching.Strategy) (registered : List SiteId) (tick : Tick)
    (target : Power), Direction.towards target = some way →
    ∃ outcome, (Matcher.ofSites strategy registered).meet tick target b = .ok outcome ∧
      volume (outcome.activations.map (·.offer)) ≤ most

/-- Whatever calls have filled a book with offers that are not negative, it tells the most that one
offer per site can deliver, and no strategy activates more. An aggregator whose sites make these
calls answers a poll with a band, unless an id comes again. -/
theorem deliverable_greatest (calls : List Filling)
    (hvalid : ∀ call ∈ calls, ∀ o ∈ call.offers, 0 ≤ o.magnitude) :
    (∀ way, ∃ most, (filled calls).Delivers way most) ∧
    ∀ (σ : Type) (a : Aggregator σ) (w : σ), a.fillings w = calls →
      a.capacity w =
          (.ok ⟨(filled calls).deliverable .down, (filled calls).deliverable .up⟩,
            { a with book := filled calls }) ∨
        ∃ id, a.capacity w = (.error (.repeatedOffer id), a) := by
  have hsites := (coherent_filled calls).sites_nodup
  have hsound := sound_filled hvalid
  constructor
  · intro way
    refine ⟨promise way (filled calls).entries, isGreatest_promise hsites way,
      toInt_deliverable_eq_min hsites hsound way, deliverable_nonneg hsound way, ?_⟩
    intro strategy registered tick target htowards
    apply Matcher.volume_le_promise hsites _ htowards
    exact Matcher.nodup_sites_ofSites strategy registered
  · rintro σ a w rfl
    exact Aggregator.capacity_cases hsound

/-- Two sites that together go beyond the range upwards, and a call that is refused. -/
def towering : List Filling :=
  [.extend ⟨"north"⟩ [⟨1, 0x7fffffffffffffff, .up, 0, 0, 0⟩, ⟨2, 6, .down, 0, 0, 0⟩],
    .add ⟨"south"⟩ ⟨3, 5, .up, 0, 0, 0⟩, .add ⟨"south"⟩ ⟨1, 9, .up, 0, 0, 0⟩]

/-- An aggregator whose sites offer as much. -/
def towers : Aggregator Unit where
  sites := [(⟨"north"⟩, ⟨fun _ => [⟨1, 0x7fffffffffffffff, .up, 0, 0, 0⟩, ⟨2, 6, .down, 0, 0, 0⟩],
      fun _ w => w⟩),
    (⟨"south"⟩, ⟨fun _ => [⟨3, 5, .up, 0, 0, 0⟩], fun _ w => w⟩)]
  matcher := Matcher.ofSites .exhaustive [⟨"north"⟩, ⟨"south"⟩]
  frequency := 1
  ticks := 0
  target := 0
  book := .empty

theorem deliverable_greatest_towering :
    (∀ call ∈ towering, ∀ o ∈ call.offers, 0 ≤ o.magnitude) ∧
      (∀ way, ∃ most, (filled towering).Delivers way most) ∧
      promise .up (filled towering).entries = Power.greatest + 5 ∧
      ((filled towering).deliverable .up).toInt = Power.greatest ∧
      (towers.capacity ()).1 = .ok ⟨(filled (towers.fillings ())).deliverable .down,
        (filled (towers.fillings ())).deliverable .up⟩ := by
  have hvalid : ∀ call ∈ towering, ∀ o ∈ call.offers, 0 ≤ o.magnitude := by decide
  have hoffered : ∀ call ∈ towers.fillings (), ∀ o ∈ call.offers, 0 ≤ o.magnitude := by decide
  refine ⟨hvalid, (deliverable_greatest towering hvalid).1, by decide +kernel,
    by decide +kernel, ?_⟩
  rcases (deliverable_greatest (towers.fillings ()) hoffered).2 Unit towers () rfl with
    hanswer | ⟨id, hrepeated⟩
  · exact congrArg Prod.fst hanswer
  · have hok : (towers.capacity ()).1.isOk = true := by decide +kernel
    rw [hrepeated] at hok
    cases hok

end Book

end DemandResponse
