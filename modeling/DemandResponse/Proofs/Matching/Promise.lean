import DemandResponse.Proofs.Matching.Dominance
import Mathlib.Algebra.Order.BigOperators.Group.List
import Mathlib.Algebra.Order.Ring.Int

/-!
# What a book promises can be matched

A book promises, per direction, the greatest magnitudes of all its sites together. The search
works on the usable offers of the registered sites instead, each at most once. The two agree: if
no sum is clamped, the promise for the direction of a target is the most that a choice adds up to,
also after further sites were registered. And a target that some choice adds up to is met exactly
by the exhaustive strategy.
-/

namespace DemandResponse

open Matching (peak combinedPeak peak_nonneg)

/-- The peaks that some sites have in one direction, together. -/
def promise (way : Direction) (entries : List (SiteId × List Offer)) : Int :=
  combinedPeak (entries.map fun e => ⟨e.1, e.2.filter fun o => o.direction = way⟩)

theorem promise_append (way : Direction) (first second : List (SiteId × List Offer)) :
    promise way (first ++ second) = promise way first + promise way second := by
  induction first with
  | nil => exact (Int.zero_add _).symm
  | cons e first ih =>
    change peak _ + promise way (first ++ second) = peak _ + promise way first + _
    rw [ih, Int.add_assoc]

theorem promise_eq_sum (way : Direction) (entries : List (SiteId × List Offer)) :
    promise way entries =
      (entries.map fun e => peak (e.2.filter fun o => o.direction = way)).sum := by
  induction entries with
  | nil => rfl
  | cons e rest ih =>
    rw [List.map_cons, List.sum_cons, ← ih]
    rfl

/-- Some of the sites do not promise more than all of them, in whatever order. -/
theorem promise_le_of_subperm {first second : List (SiteId × List Offer)} (h : first.Subperm second)
    (way : Direction) : promise way first ≤ promise way second := by
  obtain ⟨middle, hperm, hsublist⟩ := h
  rw [promise_eq_sum, promise_eq_sum, ← (hperm.map _).sum_eq]
  apply (hsublist.map _).sum_le_sum
  intro x hx
  obtain ⟨e, _, rfl⟩ := List.mem_map.mp hx
  exact peak_nonneg _

namespace Book

variable {b : Book} {way : Direction}

theorem toInt_foldl_greatest (offers : List Offer) {m : Power} (hm : 0 ≤ m.toInt) :
    ((offers.map (·.magnitude)).foldl (fun best x => if best ≤ x then x else best) m).toInt =
      max m.toInt (peak offers) := by
  induction offers generalizing m with
  | nil => exact (Int.max_eq_left hm).symm
  | cons o rest ih =>
    rw [List.map_cons, List.foldl_cons, peak]
    split
    · next hle =>
      have hle := Int64.le_iff_toInt_le.mp hle
      rw [ih (Int.le_trans hm hle)]
      omega
    · next hlt =>
      have hlt := mt Int64.le_iff_toInt_le.mpr hlt
      rw [ih hm]
      omega

theorem toInt_maxMagnitude (h : Sound b.entries) (site : SiteId) (way : Direction) :
    (b.maxMagnitude site way).toInt =
      peak ((b.offersFor site).filter fun o => o.direction = way) := by
  unfold maxMagnitude
  cases hside : (b.offersFor site).filter fun o => o.direction = way with
  | nil => rfl
  | cons o rest =>
    have ho : o ∈ b.offersFor site := (List.mem_filter.mp (hside ▸ List.mem_cons_self)).1
    obtain ⟨offers, he, hmem⟩ := mem_entries_of_offersFor ho
    exact toInt_foldl_greatest rest (Int64.le_iff_toInt_le.mp (h _ he o hmem))

/-- The greatest magnitudes add up until the end of the range is reached. -/
theorem toInt_foldl_maxMagnitude (h : Sound b.entries) (sites : List SiteId) {sum : Power}
    (hsum : 0 ≤ sum.toInt) :
    (sites.foldl (fun sum site => Power.addClamped sum (b.maxMagnitude site way)) sum).toInt =
      min Power.greatest
        (sum.toInt + promise way (sites.map fun site => (site, b.offersFor site))) := by
  induction sites generalizing sum with
  | nil =>
    have hhi := (Power.inRange_toInt sum).2
    show sum.toInt = min Power.greatest (sum.toInt + 0)
    omega
  | cons site rest ih =>
    have hsplit : promise way ((site :: rest).map fun site => (site, b.offersFor site)) =
        (b.maxMagnitude site way).toInt +
          promise way (rest.map fun site => (site, b.offersFor site)) := by
      rw [toInt_maxMagnitude h]
      rfl
    have hsite : 0 ≤ (b.maxMagnitude site way).toInt := by
      rw [toInt_maxMagnitude h]
      exact peak_nonneg _
    have hrest : 0 ≤ promise way (rest.map fun site => (site, b.offersFor site)) :=
      Matching.combinedPeak_nonneg _
    have hadd : (Power.addClamped sum (b.maxMagnitude site way)).toInt =
        min Power.greatest (sum.toInt + (b.maxMagnitude site way).toInt) := by
      rw [Power.addClamped, Power.toInt_clamp_eq]
      unfold Power.least Power.greatest
      omega
    have hnext : 0 ≤ (Power.addClamped sum (b.maxMagnitude site way)).toInt := by
      rw [hadd]
      unfold Power.greatest
      omega
    rw [List.foldl_cons, ih hnext, hadd, hsplit]
    omega

/-- Under distinct names the sites of a book, each with its offers, are its entries. -/
theorem map_offersFor (h : b.sites.Nodup) :
    (b.sites.map fun site => (site, b.offersFor site)) = b.entries := by
  rw [sites, List.map_map]
  refine (List.map_congr_left fun e he => ?_).trans (List.map_id _)
  rw [Function.comp_apply, offersFor, find?_of_nodup h he]
  rfl

/-- What a book can deliver is what its sites promise, up to the end of the range. -/
theorem toInt_deliverable_eq_min (hsites : b.sites.Nodup) (hsound : Sound b.entries)
    (way : Direction) :
    (b.deliverable way).toInt = min Power.greatest (promise way b.entries) := by
  have hfold := @toInt_foldl_maxMagnitude b way hsound b.sites 0
    (Int64.toInt_zero ▸ Int.le_refl 0)
  rw [map_offersFor hsites, Int64.toInt_zero, Int.zero_add] at hfold
  exact hfold

/-- It is all that they promise, as long as this is in range. -/
theorem toInt_deliverable (hsites : b.sites.Nodup) (hsound : Sound b.entries)
    (hfit : promise way b.entries ≤ Power.greatest) :
    (b.deliverable way).toInt = promise way b.entries := by
  rw [toInt_deliverable_eq_min hsites hsound]
  exact Int.min_eq_right hfit

theorem offersFor_of_not_mem {site : SiteId} (h : site ∉ b.sites) : b.offersFor site = [] := by
  have hnone : (b.entries.find? fun e => e.1 = site) = none := by
    rw [List.find?_eq_none]
    intro e he hsite
    exact h (List.mem_map.mpr ⟨e, he, of_decide_eq_true hsite⟩)
  rw [offersFor, hnone]
  rfl

/-- Sites that the book does not know promise nothing. -/
theorem promise_unknown (way : Direction) {sites : List SiteId}
    (h : ∀ site ∈ sites, site ∉ b.sites) :
    promise way (sites.map fun site => (site, b.offersFor site)) = 0 := by
  induction sites with
  | nil => rfl
  | cons site rest ih =>
    have hrest := ih fun s hs => h s (List.mem_cons_of_mem site hs)
    rw [List.map_cons, offersFor_of_not_mem (h site List.mem_cons_self)]
    exact (Int.zero_add _).trans hrest

/-- Distinct sites do not promise more than the book, whether it knows them or not. -/
theorem promise_le_of_nodup (hbook : b.sites.Nodup) {sites : List SiteId} (h : sites.Nodup)
    (way : Direction) :
    promise way (sites.map fun site => (site, b.offersFor site)) ≤ promise way b.entries := by
  have hsubset : sites ⊆ b.sites ++ sites.filter fun site => site ∉ b.sites := by
    intro site hsite
    by_cases hknown : site ∈ b.sites <;> simp [hsite, hknown]
  have hsubperm : (sites.map fun site => (site, b.offersFor site)).Subperm
      ((b.sites ++ sites.filter fun site => site ∉ b.sites).map
        fun site => (site, b.offersFor site)) := by
    apply List.subperm_of_subset
    · exact h.map fun _ _ heq => congrArg Prod.fst heq
    · exact List.map_subset _ hsubset
  have hunknown : promise way ((sites.filter fun site => site ∉ b.sites).map
      fun site => (site, b.offersFor site)) = 0 := by
    apply promise_unknown
    intro site hsite
    simpa using (List.mem_filter.mp hsite).2
  calc promise way (sites.map fun site => (site, b.offersFor site))
      ≤ promise way ((b.sites ++ sites.filter fun site => site ∉ b.sites).map
          fun site => (site, b.offersFor site)) := promise_le_of_subperm hsubperm way
    _ = promise way b.entries := by
      rw [List.map_append, promise_append, hunknown, map_offersFor hbook, Int.add_zero]

end Book

namespace Matching

open BestFit (Chooses)

variable {way : Direction} {target : Power} {book : Book}

/-- Offers of nothing do not count for a peak. -/
theorem peak_filter_pos (offers : List Offer) :
    peak (offers.filter fun o => 0 < o.magnitude) = peak offers := by
  induction offers with
  | nil => rfl
  | cons o rest ih =>
    have hrest := peak_nonneg rest
    rw [peak, ← ih]
    by_cases hpos : 0 < o.magnitude
    · rw [List.filter_cons_of_pos (by simpa using hpos), peak]
    · have hle := mt Int64.lt_iff_toInt_lt.mpr hpos
      rw [Int64.toInt_zero] at hle
      rw [List.filter_cons_of_neg (by simpa using hpos), ih]
      omega

theorem peak_usable (h : Direction.towards target = some way) (offers : List Offer) :
    peak (usable target offers) = peak (offers.filter fun o => o.direction = way) := by
  rw [← peak_filter_pos (offers.filter _), List.filter_filter, usable, h]
  simp only [Bool.decide_and, Bool.and_comm]

theorem combinedPeak_usable (h : Direction.towards target = some way) (sites : List SiteId) :
    combinedPeak (sites.map fun site => ⟨site, usable target (book.offersFor site)⟩) =
      promise way (sites.map fun site => (site, book.offersFor site)) := by
  induction sites with
  | nil => rfl
  | cons site rest ih =>
    rw [List.map_cons, combinedPeak, ih, peak_usable h]
    rfl

/-- The sites of the book, and others after them, have the peaks that the book promises. -/
theorem Matcher.combinedPeak_candidates {m : Matcher} {more : List SiteId}
    (hsites : m.sites = book.sites ++ more) (hnodup : m.sites.Nodup)
    (h : Direction.towards target = some way) :
    combinedPeak (m.candidates target book) = promise way book.entries := by
  obtain ⟨hbook, _, hmore⟩ := List.nodup_append.mp (hsites ▸ hnodup)
  have hlater : promise way (more.map fun site => (site, book.offersFor site)) = 0 :=
    Book.promise_unknown way fun site hs hb => hmore site hb site hs rfl
  rw [candidates, combinedPeak_usable h, hsites, List.map_append, promise_append, hlater,
    Book.map_offersFor hbook, Int.add_zero]

/-- Whichever sites are registered, their candidates have no more than the book promises. -/
theorem Matcher.combinedPeak_candidates_le {m : Matcher} (hbook : book.sites.Nodup)
    (hnodup : m.sites.Nodup) (h : Direction.towards target = some way) :
    combinedPeak (m.candidates target book) ≤ promise way book.entries := by
  rw [candidates, combinedPeak_usable h]
  exact Book.promise_le_of_nodup hbook hnodup way

/-- A target that some choice adds up to is met exactly, if the peaks are in range. -/
theorem Matcher.meet_exact {sites : List SiteId} {selection : Selection} (tick : Tick)
    (hpeaks : combinedPeak (candidates ⟨.exhaustive, sites⟩ target book) ≤ Power.greatest)
    (hchooses : Chooses selection (candidates ⟨.exhaustive, sites⟩ target book))
    (hsum : exactSum (active selection) = target.toInt) :
    ∃ outcome, meet ⟨.exhaustive, sites⟩ tick target book = .ok outcome ∧
      outcome.isExact = .ok true ∧ outcome.achieved = .ok target := by
  obtain ⟨best, hmeet, htarget, hvalued, hrange, hbest⟩ := meet_leads tick hpeaks
  have hexact : best.exactSum = target.toInt := by
    have hleads := hbest selection hchooses
    simp only [Leads, Outcome.exactSum_offers] at hleads
    omega
  obtain ⟨⟨sum, hachieved, hvalue⟩, _, hdecide⟩ := hvalued.exact hrange
  obtain rfl : sum = target := Int64.toInt_inj.mp (hvalue.trans hexact)
  refine ⟨best, hmeet, ?_, hachieved⟩
  rw [hdecide, htarget, hexact, decide_eq_true rfl]

theorem towards_of_sign (h : 0 < way.sign * target.toInt) :
    Direction.towards target = some way := by
  cases way with
  | up => exact towards_of_pos (by rwa [Direction.sign, Int.one_mul] at h)
  | down => exact towards_of_neg (by rw [Direction.sign] at h; omega)

/-- A target as far as the book promises is met exactly, also if it promises nothing. -/
theorem Matcher.meet_promised {m : Matcher} {more : List SiteId} (tick : Tick)
    (hstrategy : m.strategy = .exhaustive) (hsites : m.sites = book.sites ++ more)
    (hnodup : m.sites.Nodup) (hfit : promise way book.entries ≤ Power.greatest)
    (htarget : way.sign * target.toInt = promise way book.entries) :
    ∃ outcome, m.meet tick target book = .ok outcome ∧ outcome.isExact = .ok true ∧
      outcome.achieved = .ok target := by
  obtain ⟨strategy, sites⟩ := m
  obtain rfl : strategy = .exhaustive := hstrategy
  by_cases hzero : target = 0
  · subst hzero
    exact ⟨⟨tick, 0, []⟩, rfl, rfl, rfl⟩
  · have hpromise : 0 ≤ promise way book.entries := combinedPeak_nonneg _
    have hpos : 0 < way.sign * target.toInt := by
      have hnonzero : target.toInt ≠ 0 := fun h =>
        hzero (Int64.toInt_inj.mp (h.trans Int64.toInt_zero.symm))
      cases way <;> simp only [Direction.sign] at htarget ⊢ <;> omega
    have htowards := towards_of_sign hpos
    have hpeaks := combinedPeak_candidates hsites hnodup htowards
    obtain ⟨selection, hchooses, hsum⟩ :=
      exists_chooses_combinedPeak (@oneWay_of_towards way ⟨.exhaustive, sites⟩ target book htowards)
    refine meet_exact tick (hpeaks ▸ hfit) hchooses ?_
    rw [hpeaks, ← htarget] at hsum
    cases way <;> simp only [Direction.sign] at hsum <;> omega

end Matching

end DemandResponse
