import DemandResponse.Proofs.Book.Listing
import Mathlib.Data.List.Nodup
import Mathlib.Data.List.Pairwise

/-!
# A book filled call by call

Offers come one at a time or as the list of a site. A call breaks off at an id that the book
already has, and the book is used on. However it was filled, a book lists every site once and
every id once, and its index holds the ids that it lists.
-/

namespace DemandResponse.Book

/-- A call that puts offers into a book. -/
inductive Filling where
  | add (site : SiteId) (offer : Offer)
  | extend (site : SiteId) (offers : List Offer)

/-- Carry out a call. An offer that is refused leaves the book as it was. -/
def perform (b : Book) : Filling → Attempt Book Unit
  | .add site offer =>
    match b.add site offer with
    | .ok b' => (.ok (), b')
    | .error fault => (.error fault, b)
  | .extend site offers => b.extend site offers

/-- The book after some calls, of which any may have broken off. -/
def filled (calls : List Filling) : Book := calls.foldl (fun b call => (b.perform call).2) empty

theorem filled_concat (calls : List Filling) (call : Filling) :
    filled (calls ++ [call]) = ((filled calls).perform call).2 := by
  rw [filled, List.foldl_append]
  rfl

/-- Sites and ids are listed once each, and the index holds the ids that are listed. -/
structure Coherent (b : Book) : Prop where
  sites_nodup : b.sites.Nodup
  ids_nodup : (idsOf b.entries).Nodup
  index : b.ids.Perm (idsOf b.entries)

variable {b : Book}

theorem coherent_empty : empty.Coherent := ⟨List.nodup_nil, List.nodup_nil, .nil⟩

theorem sites_place (site : SiteId) (offers : List Offer) (entries : List (SiteId × List Offer)) :
    (place site offers entries).map Prod.fst =
      if site ∈ entries.map Prod.fst then entries.map Prod.fst
      else entries.map Prod.fst ++ [site] := by
  induction entries with
  | nil => rfl
  | cons e entries ih =>
    rw [place]
    by_cases he : e.1 = site
    · rw [if_pos he, List.map_cons, List.map_cons, if_pos (he ▸ List.mem_cons_self)]
    · have hmem : site ∈ e.1 :: entries.map Prod.fst ↔ site ∈ entries.map Prod.fst := by
        rw [List.mem_cons, or_iff_right (Ne.symm he)]
      rw [if_neg he, List.map_cons, List.map_cons, ih]
      simp only [hmem]
      split <;> rfl

theorem nodup_sites_place {entries : List (SiteId × List Offer)}
    (h : (entries.map Prod.fst).Nodup) (site : SiteId) (offers : List Offer) :
    ((place site offers entries).map Prod.fst).Nodup := by
  rw [sites_place]
  split
  · exact h
  · next hsite =>
    rw [← List.concat_eq_append]
    exact h.concat hsite

/-- Placing offers adds their ids and no others. -/
theorem idsOf_place (site : SiteId) (offers : List Offer) (entries : List (SiteId × List Offer)) :
    (idsOf (place site offers entries)).Perm (offers.map (·.id) ++ idsOf entries) := by
  induction entries with
  | nil => rw [place, idsOf, List.flatMap_singleton, idsOf, List.flatMap_nil, List.map_nil,
      List.append_nil]
  | cons e entries ih =>
    have hcons : ∀ (listed : List Offer) (rest : List (SiteId × List Offer)),
        idsOf ((e.1, listed) :: rest) = listed.map (·.id) ++ idsOf rest := by
      intro listed rest
      rw [idsOf, List.flatMap_cons, List.map_append]
      rfl
    rw [place, hcons]
    split
    · rw [hcons, List.map_append, List.append_assoc]
      exact List.perm_append_comm_assoc _ _ _
    · rw [hcons]
      exact (ih.append_left _).trans (List.perm_append_comm_assoc _ _ _)

/-- Offers of fresh ids are placed coherently. -/
theorem Coherent.place (h : b.Coherent) (site : SiteId) (offers : List Offer)
    (hids : (offers.map (·.id) ++ b.ids).Nodup) :
    Coherent ⟨Book.place site offers b.entries, offers.map (·.id) ++ b.ids⟩ := by
  have hindex : (offers.map (·.id) ++ b.ids).Perm (idsOf (Book.place site offers b.entries)) :=
    (h.index.append_left _).trans (idsOf_place site offers b.entries).symm
  exact ⟨nodup_sites_place h.sites_nodup site offers, hindex.nodup hids, hindex⟩

theorem Coherent.mention (h : b.Coherent) (site : SiteId) : (b.mention site).Coherent :=
  h.place site [] (h.index.nodup_iff.mpr h.ids_nodup)

theorem Coherent.add (h : b.Coherent) {offer : Offer} {b' : Book}
    (hadd : b.add site offer = .ok b') : b'.Coherent := by
  unfold Book.add at hadd
  split at hadd
  · cases hadd
  · next hfresh =>
    cases hadd
    exact h.place site [offer]
      (List.nodup_cons.mpr ⟨hfresh, h.index.nodup_iff.mpr h.ids_nodup⟩)

/-- A list of offers may break off anywhere. -/
theorem Coherent.addAll (h : b.Coherent) (site : SiteId) (offers : List Offer) :
    (addAll site offers b).2.Coherent := by
  induction offers generalizing b with
  | nil => exact h
  | cons offer offers ih =>
    rw [Book.addAll]
    split
    · next b' hadd => exact ih (h.add hadd)
    · exact h

theorem Coherent.perform (h : b.Coherent) (call : Filling) : (b.perform call).2.Coherent := by
  cases call with
  | add site offer =>
    rw [Book.perform]
    split
    · next b' hadd => exact h.add hadd
    · exact h
  | extend site offers => exact (h.mention site).addAll site offers

theorem coherent_filled (calls : List Filling) : (filled calls).Coherent :=
  List.foldlRecOn calls _ coherent_empty fun _ h call _ => h.perform call

/-- What is listed for a site is all that the site offers. -/
theorem Coherent.offersFor_eq {site : SiteId} {offers : List Offer} (h : b.Coherent)
    (he : (site, offers) ∈ b.entries) :
    b.offersFor site = offers := by
  rw [offersFor, find?_of_nodup h.sites_nodup he]
  rfl

theorem Coherent.offers_nodup (h : b.Coherent) : b.offers.Nodup := h.ids_nodup.of_map _

/-- An offer is known by its id, and stands in one entry only. -/
theorem Coherent.eq_of_id_eq (h : b.Coherent) {e e' : SiteId × List Offer} {o o' : Offer}
    (he : e ∈ b.entries) (he' : e' ∈ b.entries) (ho : o ∈ e.2) (ho' : o' ∈ e'.2)
    (hid : o.id = o'.id) : o = o' ∧ e = e' := by
  have hoffer : o = o' := List.inj_on_of_nodup_map h.ids_nodup
    (List.mem_flatMap.mpr ⟨e, he, ho⟩) (List.mem_flatMap.mpr ⟨e', he', ho'⟩) hid
  refine ⟨hoffer, ?_⟩
  by_contra hne
  have hdisjoint := (List.nodup_flatMap.mp h.offers_nodup).2
  have : Std.Symm (Function.onFun List.Disjoint (Prod.snd : SiteId × List Offer → List Offer)) :=
    ⟨fun _ _ hd _ ha hb => hd hb ha⟩
  exact hdisjoint.forall he he' hne ho (hoffer ▸ ho')

end DemandResponse.Book
