import DemandResponse.Proofs.Book.Listing

/-!
# A repeated id

Distinct sites are gathered offer by offer. Where their offers repeat an id, gathering ends at the
first offer whose id has come before, and names this id.
-/

namespace DemandResponse

variable {α : Type} {l : List α} {a : α}

/-- The first element of a list that has come before. -/
def FirstRepeat (l : List α) (a : α) : Prop :=
  ∃ front back, l = front ++ a :: back ∧ front.Nodup ∧ a ∈ front

theorem FirstRepeat.append (h : FirstRepeat l a) (more : List α) : FirstRepeat (l ++ more) a := by
  obtain ⟨front, back, rfl, hfront, ha⟩ := h
  exact ⟨front, back ++ more, List.append_assoc _ _ _, hfront, ha⟩

theorem FirstRepeat.not_nodup (h : FirstRepeat l a) : ¬ l.Nodup := by
  obtain ⟨front, back, rfl, _, ha⟩ := h
  exact fun hnodup => (List.nodup_append.mp hnodup).2.2 a ha a List.mem_cons_self rfl

namespace Book

variable {entries rest : List (SiteId × List Offer)} {site : SiteId} {offers : List Offer}

theorem addAll_repeated (listed : List Offer) (hsite : site ∉ entries.map Prod.fst)
    (hlisted : (idsOf (entries ++ [(site, listed)])).Nodup)
    (hids : ¬ (idsOf (entries ++ [(site, listed ++ offers)])).Nodup) :
    ∃ id, FirstRepeat (idsOf (entries ++ [(site, listed ++ offers)])) id ∧
      (addAll site offers (listing (entries ++ [(site, listed)]))).1 =
        .error (.repeatedOffer id) := by
  induction offers generalizing listed with
  | nil =>
    rw [List.append_nil] at hids
    exact absurd hlisted hids
  | cons offer offers ih =>
    by_cases hid : offer.id ∈ idsOf (entries ++ [(site, listed)])
    · refine ⟨offer.id, ⟨_, offers.map (·.id), ?_, hlisted, hid⟩, ?_⟩
      · exact idsOf_concat listed (offer :: offers)
      · rw [addAll, add, if_pos (by rwa [listing, List.mem_reverse])]
    · have hsplit : listed ++ offer :: offers = (listed ++ [offer]) ++ offers :=
        List.append_cons listed offer offers
      have hnext : (idsOf (entries ++ [(site, listed ++ [offer])])).Nodup := by
        rw [idsOf_concat, List.map_singleton, ← List.concat_eq_append]
        exact hlisted.concat hid
      rw [addAll, add_listing hsite hid]
      rw [hsplit] at hids ⊢
      exact ih (listed ++ [offer]) hnext hids

theorem extendAll_repeated (hsites : ((entries ++ rest).map Prod.fst).Nodup)
    (hentries : (idsOf entries).Nodup) (hids : ¬ (idsOf (entries ++ rest)).Nodup) :
    ∃ id, FirstRepeat (idsOf (entries ++ rest)) id ∧
      (extendAll rest (listing entries)).1 = .error (.repeatedOffer id) := by
  induction rest generalizing entries with
  | nil =>
    rw [List.append_nil] at hids
    exact absurd hentries hids
  | cons e rest ih =>
    obtain ⟨site, offers⟩ := e
    have hsite := site_not_mem hsites
    rw [List.append_cons] at hsites hids ⊢
    by_cases hfirst : (idsOf (entries ++ [(site, offers)])).Nodup
    · rw [extendAll, extend_listing hsite hfirst]
      exact ih hsites hfirst hids
    · have hmentioned : (idsOf (entries ++ [(site, [])])).Nodup := by
        rw [idsOf_append]
        simpa [idsOf] using hentries
      obtain ⟨id, hrepeat, hanswer⟩ := addAll_repeated [] hsite hmentioned hfirst
      refine ⟨id, ?_, ?_⟩
      · rw [idsOf_append]
        exact hrepeat.append _
      · rw [extendAll, extend, mention_listing hsite]
        generalize addAll site offers (listing (entries ++ [(site, [])])) = attempt at hanswer
        obtain ⟨_, book⟩ := attempt
        obtain rfl := hanswer
        rfl

end Book

end DemandResponse
