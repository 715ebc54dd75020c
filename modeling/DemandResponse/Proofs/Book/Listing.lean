import DemandResponse.Band
import DemandResponse.Book
import Mathlib.Data.List.Nodup
import Mathlib.Data.List.Basic

/-!
# A book filled site by site

Distinct sites with distinct offer ids are taken over into an empty book as they stand. What a
book of non-negative magnitudes can deliver is a limit of a band.
-/

namespace DemandResponse

/-- An element that comes again keeps its first place. -/
theorem eraseDups_concat {α : Type} [DecidableEq α] (l : List α) (a : α) :
    (l ++ [a]).eraseDups = if a ∈ l then l.eraseDups else l.eraseDups ++ [a] := by
  rw [List.eraseDups_append]
  by_cases h : a ∈ l
  · simp [List.removeAll, h]
  · simp [List.removeAll, h, List.eraseDups_cons]

namespace Book

variable {entries rest : List (SiteId × List Offer)} {site : SiteId}

/-- The ids of all offers, in the order in which they are listed. -/
def idsOf (entries : List (SiteId × List Offer)) : List Int64 :=
  (entries.flatMap Prod.snd).map (·.id)

/-- The book that lists some sites with their offers. -/
def listing (entries : List (SiteId × List Offer)) : Book := ⟨entries, (idsOf entries).reverse⟩

theorem idsOf_append (entries rest : List (SiteId × List Offer)) :
    idsOf (entries ++ rest) = idsOf entries ++ idsOf rest := by
  rw [idsOf, List.flatMap_append, List.map_append]
  rfl

theorem idsOf_concat (listed offers : List Offer) :
    idsOf (entries ++ [(site, listed ++ offers)]) =
      idsOf (entries ++ [(site, listed)]) ++ offers.map (·.id) := by
  simp [idsOf]

theorem place_of_not_mem (offers : List Offer) (h : site ∉ entries.map Prod.fst) :
    place site offers entries = entries ++ [(site, offers)] := by
  induction entries with
  | nil => rfl
  | cons e entries ih =>
    rw [List.map_cons, List.mem_cons, not_or] at h
    rw [place, if_neg (Ne.symm h.1), ih h.2]
    rfl

theorem place_append (listed offers : List Offer) (h : site ∉ entries.map Prod.fst) :
    place site offers (entries ++ [(site, listed)]) = entries ++ [(site, listed ++ offers)] := by
  induction entries with
  | nil => exact if_pos rfl
  | cons e entries ih =>
    rw [List.map_cons, List.mem_cons, not_or] at h
    rw [List.cons_append, place, if_neg (Ne.symm h.1), ih h.2]
    rfl

/-- The index grows at the front, so it stays the reversed list of ids. -/
theorem add_listing {listed : List Offer} {offer : Offer} (hsite : site ∉ entries.map Prod.fst)
    (hfresh : offer.id ∉ idsOf (entries ++ [(site, listed)])) :
    (listing (entries ++ [(site, listed)])).add site offer =
      .ok (listing (entries ++ [(site, listed ++ [offer])])) := by
  have hnext : Book.mk (entries ++ [(site, listed ++ [offer])])
      (offer.id :: (idsOf (entries ++ [(site, listed)])).reverse) =
        listing (entries ++ [(site, listed ++ [offer])]) := by
    rw [listing, idsOf_concat, List.reverse_append]
    rfl
  rw [add, if_neg (by rwa [listing, List.mem_reverse]), ← hnext, listing,
    place_append listed [offer] hsite]

/-- Offers of fresh ids are all added to the site that was mentioned last. -/
theorem addAll_append {offers : List Offer} (listed : List Offer)
    (hsite : site ∉ entries.map Prod.fst)
    (hids : (idsOf (entries ++ [(site, listed ++ offers)])).Nodup) :
    addAll site offers (listing (entries ++ [(site, listed)])) =
      (.ok (), listing (entries ++ [(site, listed ++ offers)])) := by
  induction offers generalizing listed with
  | nil => rw [List.append_nil]; rfl
  | cons offer offers ih =>
    have hsplit : listed ++ offer :: offers = (listed ++ [offer]) ++ offers :=
      List.append_cons listed offer offers
    have hfresh : offer.id ∉ idsOf (entries ++ [(site, listed)]) := by
      rw [idsOf_concat] at hids
      exact fun hm => (List.nodup_append.mp hids).2.2 _ hm _ List.mem_cons_self rfl
    rw [addAll, add_listing hsite hfresh, hsplit]
    exact ih (listed ++ [offer]) (hsplit ▸ hids)

/-- The mention of a new site is listed last. -/
theorem mention_listing (hsite : site ∉ entries.map Prod.fst) :
    (listing entries).mention site = listing (entries ++ [(site, [])]) := by
  rw [mention, listing, place_of_not_mem [] hsite, listing, idsOf_append]
  simp [idsOf]

theorem extend_listing {offers : List Offer} (hsite : site ∉ entries.map Prod.fst)
    (hids : (idsOf (entries ++ [(site, offers)])).Nodup) :
    (listing entries).extend site offers = (.ok (), listing (entries ++ [(site, offers)])) := by
  rw [extend, mention_listing hsite]
  exact addAll_append [] hsite hids

/-- A site that comes next among distinct sites is new. -/
theorem site_not_mem {offers : List Offer}
    (hsites : ((entries ++ (site, offers) :: rest).map Prod.fst).Nodup) :
    site ∉ entries.map Prod.fst := by
  rw [List.map_append] at hsites
  exact fun hm => (List.nodup_append.mp hsites).2.2 site hm site List.mem_cons_self rfl

theorem extendAll_listing (hsites : ((entries ++ rest).map Prod.fst).Nodup)
    (hids : (idsOf (entries ++ rest)).Nodup) :
    extendAll rest (listing entries) = (.ok (), listing (entries ++ rest)) := by
  induction rest generalizing entries with
  | nil => rw [List.append_nil]; rfl
  | cons e rest ih =>
    obtain ⟨site, offers⟩ := e
    have hsite := site_not_mem hsites
    rw [List.append_cons] at hsites hids ⊢
    have hfirst : (idsOf (entries ++ [(site, offers)])).Nodup := by
      rw [idsOf_append] at hids
      exact (List.nodup_append.mp hids).1
    rw [extendAll, extend_listing hsite hfirst]
    exact ih hsites hids

/-- A book of magnitudes that are not negative. -/
def Sound (entries : List (SiteId × List Offer)) : Prop :=
  ∀ e ∈ entries, ∀ o ∈ e.2, 0 ≤ o.magnitude

end Book

namespace Power

theorem clamp_nonneg {x : Int} (h : 0 ≤ x) : 0 ≤ clamp x := by
  rw [Int64.le_iff_toInt_le, toInt_clamp_eq, Int64.toInt_zero]
  unfold least greatest
  omega

theorem addClamped_nonneg {a b : Power} (ha : 0 ≤ a) (hb : 0 ≤ b) : 0 ≤ addClamped a b :=
  clamp_nonneg (Int.add_nonneg (Int64.le_iff_toInt_le.mp ha) (Int64.le_iff_toInt_le.mp hb))

end Power

/-- Under distinct names every entry is found under its own. -/
theorem find?_of_nodup {α : Type} {entries : List (SiteId × α)}
    (h : (entries.map Prod.fst).Nodup) {e : SiteId × α} (he : e ∈ entries) :
    entries.find? (fun t => t.1 = e.1) = some e := by
  induction entries with
  | nil => cases he
  | cons t entries ih =>
    obtain ⟨ht, hrest⟩ := List.nodup_cons.mp h
    rcases List.mem_cons.mp he with rfl | he
    · exact List.find?_cons_of_pos (decide_eq_true rfl)
    · have hne : t.1 ≠ e.1 := fun hte => ht (hte ▸ List.mem_map_of_mem he)
      rw [List.find?_cons_of_neg (by simpa using hne)]
      exact ih hrest he

namespace Book

variable {b : Book}

/-- What is on offer at a site stands in an entry of the site. -/
theorem mem_entries_of_offersFor {site : SiteId} {o : Offer} (h : o ∈ b.offersFor site) :
    ∃ offers, (site, offers) ∈ b.entries ∧ o ∈ offers := by
  unfold offersFor at h
  cases he : b.entries.find? fun e => e.1 = site with
  | none => rw [he] at h; cases h
  | some e =>
    rw [he] at h
    have hsite := List.find?_some he
    obtain rfl : e.1 = site := of_decide_eq_true hsite
    exact ⟨e.2, List.mem_of_find?_eq_some he, h⟩

theorem maxMagnitude_nonneg (h : Sound b.entries) (site : SiteId) (direction : Direction) :
    0 ≤ b.maxMagnitude site direction := by
  have hall : ∀ m ∈ ((b.offersFor site).filter fun o => o.direction = direction).map (·.magnitude),
      0 ≤ m := by
    intro m hm
    obtain ⟨o, ho, rfl⟩ := List.mem_map.mp hm
    obtain ⟨offers, he, hoe⟩ := mem_entries_of_offersFor (List.mem_filter.mp ho).1
    exact h (site, offers) he o hoe
  unfold maxMagnitude
  simp only
  split
  · exact Int64.le_refl 0
  · next m rest hm =>
    rw [hm] at hall
    refine List.foldlRecOn rest _ (hall m List.mem_cons_self) ?_
    intro best hbest x hx
    split
    · exact hall x (List.mem_cons_of_mem m hx)
    · exact hbest

theorem deliverable_nonneg (h : Sound b.entries) (direction : Direction) :
    0 ≤ b.deliverable direction :=
  List.foldlRecOn b.sites _ (Int64.le_refl 0) fun _ hsum site _ =>
    Power.addClamped_nonneg hsum (maxMagnitude_nonneg h site direction)

/-- What a sound book can deliver makes a band. -/
theorem band_deliverable (h : Sound b.entries) :
    Band.new (b.deliverable .down) (b.deliverable .up) =
      .ok ⟨b.deliverable .down, b.deliverable .up⟩ :=
  if_pos ⟨deliverable_nonneg h .down, deliverable_nonneg h .up⟩

end Book

end DemandResponse
