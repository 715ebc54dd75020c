import DemandResponse.Proofs.Book.Filling
import Mathlib.Data.List.Induction

/-!
# What a book shows of its history

A call puts offers forward one after the other, and ends at the first whose id was accepted
before. The record of some calls says what they have brought in: the offers accepted, and the
sites mentioned. A book shows its record and nothing else, also after calls that broke off. It
shows the offers of each site as they were accepted, and every site where it came first.
-/

namespace DemandResponse.Book

namespace Filling

def site : Filling → SiteId
  | .add site _ => site
  | .extend site _ => site

/-- The offers that a call puts forward. -/
def offers : Filling → List Offer
  | .add _ offer => [offer]
  | .extend _ offers => offers

/-- The sites that a call mentions when some of its offers are accepted. An offer that is added
by itself mentions its site if it is accepted; a list of offers always does. -/
def mentions (accepted : List Offer) : Filling → List SiteId
  | .add site _ => accepted.map fun _ => site
  | .extend site _ => [site]

end Filling

/-- The offers ahead of the first whose id is known or repeats one before it. -/
def fresh (known : List Int64) : List Offer → List Offer
  | [] => []
  | o :: rest => if o.id ∈ known then [] else o :: fresh (known ++ [o.id]) rest

/-- What some calls have brought in. -/
structure Record where
  /-- The offers accepted, each with its site, the earliest first. -/
  accepted : List (SiteId × Offer)
  /-- The sites in the order in which they were mentioned, some perhaps repeatedly. -/
  mentioned : List SiteId

namespace Record

def ids (r : Record) : List Int64 := r.accepted.map (·.2.id)

/-- The offers accepted for a site. -/
def offersOf (r : Record) (site : SiteId) : List Offer :=
  (r.accepted.filter fun e => e.1 = site).map Prod.snd

/-- The record with some offers of a site, which is mentioned as well. -/
def enter (r : Record) (site : SiteId) (offers : List Offer) (mentioned : List SiteId) : Record :=
  ⟨r.accepted ++ offers.map (site, ·), r.mentioned ++ mentioned⟩

def note (r : Record) (call : Filling) : Record :=
  r.enter call.site (fresh r.ids call.offers) (call.mentions (fresh r.ids call.offers))

end Record

/-- The record of some calls on an empty book. -/
def record (calls : List Filling) : Record := calls.foldl Record.note ⟨[], []⟩

/-- How offers fare that are put forward one after the other while some ids are known: which are
accepted, and what the call answers. An offer is accepted if and only if its id is not known, and
its id is known from then on. -/
inductive Fares : (known : List Int64) → (offers accepted : List Offer) → Except Fault Unit → Prop
  | done (known : List Int64) : Fares known [] [] (.ok ())
  | accepted {known : List Int64} {o : Offer} {rest accepted : List Offer}
      {answer : Except Fault Unit} (hfresh : o.id ∉ known)
      (hrest : Fares (known ++ [o.id]) rest accepted answer) :
      Fares known (o :: rest) (o :: accepted) answer
  | refused {known : List Int64} {o : Offer} (rest : List Offer) (hknown : o.id ∈ known) :
      Fares known (o :: rest) [] (.error (.repeatedOffer o.id))

/-- A book shows the offers of each site in the order of their acceptance, and the sites in the
order of their first mention. -/
structure Shows (r : Record) (b : Book) : Prop where
  offersFor_eq : ∀ site, b.offersFor site = r.offersOf site
  sites_eq : b.sites = r.mentioned.eraseDups
  offerCount_eq : b.offerCount = r.accepted.length
  /-- The index grows at the front. -/
  ids_eq : b.ids = r.ids.reverse

variable {r : Record} {b : Book} {site : SiteId}

/-- Placing offers adds them to their site and leaves all other sites alone. -/
theorem offersFor_place (site other : SiteId) (offers : List Offer) (ids ids' : List Int64)
    (entries : List (SiteId × List Offer)) :
    offersFor ⟨place site offers entries, ids'⟩ other =
      offersFor ⟨entries, ids⟩ other ++ if other = site then offers else [] := by
  unfold offersFor
  induction entries with
  | nil =>
    by_cases h : site = other
    · simp [place, h]
    · simp [place, h, Ne.symm h]
  | cons e entries ih =>
    rw [place]
    by_cases he : e.1 = other
    · by_cases h : e.1 = site
      · simp [← he, h]
      · simp [he, he ▸ h]
    · by_cases h : e.1 = site
      · simp [h, h ▸ he, Ne.symm (h ▸ he)]
      · simpa [h, he] using ih

theorem offersOf_enter (r : Record) (site other : SiteId) (offers : List Offer)
    (mentioned : List SiteId) :
    (r.enter site offers mentioned).offersOf other =
      r.offersOf other ++ if other = site then offers else [] := by
  rw [Record.offersOf, Record.enter, List.filter_append, List.map_append, List.filter_map]
  by_cases h : site = other
  · simp [h, Record.offersOf, Function.comp_def]
  · simp [h, Ne.symm h, Record.offersOf, Function.comp_def]

theorem ids_enter (r : Record) (site : SiteId) (offers : List Offer) (mentioned : List SiteId) :
    (r.enter site offers mentioned).ids = r.ids ++ offers.map (·.id) := by
  rw [Record.ids, Record.enter, List.map_append, List.map_map]
  rfl

theorem enter_nil (r : Record) (site : SiteId) : r.enter site [] [] = r := by
  rw [Record.enter, List.map_nil, List.append_nil, List.append_nil]

theorem enter_enter (r : Record) (site : SiteId) (offers rest : List Offer) :
    (r.enter site offers []).enter site rest [] = r.enter site (offers ++ rest) [] := by
  simp only [Record.enter, List.append_nil, List.map_append, List.append_assoc]

theorem offerCount_eq_length_idsOf (b : Book) : b.offerCount = (idsOf b.entries).length :=
  List.length_map _ |>.symm

theorem shows_empty : Shows ⟨[], []⟩ empty := ⟨fun _ => rfl, rfl, rfl, rfl⟩

theorem Shows.mem_ids_iff (h : Shows r b) {id : Int64} : id ∈ b.ids ↔ id ∈ r.ids := by
  rw [h.ids_eq, List.mem_reverse]

/-- Offers that are placed at their site are recorded behind all others. -/
theorem Shows.place (h : Shows r b) (site : SiteId) (offers : List Offer) :
    Shows (r.enter site offers [site])
      ⟨Book.place site offers b.entries, (offers.map (·.id)).reverse ++ b.ids⟩ := by
  refine ⟨fun other => ?_, ?_, ?_, ?_⟩
  · rw [offersOf_enter, ← h.offersFor_eq]
    exact offersFor_place site other offers b.ids _ b.entries
  · rw [Record.enter, eraseDups_concat, ← h.sites_eq]
    have hmem : site ∈ b.sites ↔ site ∈ r.mentioned := by
      rw [h.sites_eq, List.mem_eraseDups]
    simp only [← hmem]
    exact sites_place site offers b.entries
  · rw [offerCount_eq_length_idsOf, (idsOf_place site offers b.entries).length_eq,
      List.length_append, ← offerCount_eq_length_idsOf, h.offerCount_eq, Record.enter,
      List.length_append, List.length_map, List.length_map, Nat.add_comm]
  · rw [ids_enter, List.reverse_append, h.ids_eq]

/-- A site that was mentioned before need not be mentioned again. -/
theorem Shows.known {offers : List Offer} (h : Shows (r.enter site offers [site]) b)
    (hsite : site ∈ r.mentioned) : Shows (r.enter site offers []) b := by
  refine ⟨h.offersFor_eq, ?_, h.offerCount_eq, h.ids_eq⟩
  rw [h.sites_eq, Record.enter, Record.enter, eraseDups_concat, if_pos hsite, List.append_nil]

theorem add_of_mem {offer : Offer} (h : offer.id ∈ b.ids) (site : SiteId) :
    b.add site offer = .error (.repeatedOffer offer.id) := if_pos h

theorem add_of_not_mem {offer : Offer} (h : offer.id ∉ b.ids) (site : SiteId) :
    b.add site offer = .ok ⟨Book.place site [offer] b.entries, offer.id :: b.ids⟩ := if_neg h

/-- The offers of a list are accepted up to the first whose id is known. -/
theorem Shows.addAll (h : Shows r b) (hsite : site ∈ r.mentioned) (offers : List Offer) :
    Shows (r.enter site (fresh r.ids offers) []) (addAll site offers b).2 ∧
      Fares r.ids offers (fresh r.ids offers) (addAll site offers b).1 := by
  induction offers generalizing r b with
  | nil =>
    rw [fresh, enter_nil]
    exact ⟨h, .done r.ids⟩
  | cons offer offers ih =>
    rw [Book.addAll, fresh]
    by_cases hknown : offer.id ∈ r.ids
    · rw [if_pos hknown, add_of_mem (h.mem_ids_iff.mpr hknown), enter_nil]
      exact ⟨h, .refused offers hknown⟩
    · rw [if_neg hknown, add_of_not_mem (mt h.mem_ids_iff.mp hknown)]
      have hnext := (h.place site [offer]).known hsite
      have hsite' : site ∈ (r.enter site [offer] []).mentioned := by
        rwa [Record.enter, List.append_nil]
      obtain ⟨hshows, hfares⟩ := ih hnext hsite'
      rw [ids_enter, enter_enter] at hshows
      rw [ids_enter] at hfares
      exact ⟨hshows, .accepted hknown hfares⟩

theorem fresh_singleton_of_mem {known : List Int64} {o : Offer} (h : o.id ∈ known) :
    fresh known [o] = [] := if_pos h

theorem fresh_singleton_of_not_mem {known : List Int64} {o : Offer} (h : o.id ∉ known) :
    fresh known [o] = [o] := if_neg h

/-- A call keeps a book in step with its record. -/
theorem Shows.perform (h : Shows r b) (call : Filling) :
    Shows (r.note call) (b.perform call).2 ∧
      Fares r.ids call.offers (fresh r.ids call.offers) (b.perform call).1 := by
  cases call with
  | add site offer =>
    rw [Record.note, Filling.offers, Book.perform]
    by_cases hknown : offer.id ∈ r.ids
    · rw [fresh_singleton_of_mem hknown, add_of_mem (h.mem_ids_iff.mpr hknown)]
      refine ⟨?_, .refused [] hknown⟩
      exact (enter_nil r site).symm ▸ h
    · rw [fresh_singleton_of_not_mem hknown, add_of_not_mem (mt h.mem_ids_iff.mp hknown)]
      exact ⟨h.place site [offer], .accepted hknown (.done _)⟩
  | extend site offers =>
    have hmentioned : Shows (r.enter site [] [site]) (b.mention site) := h.place site []
    have hsite : site ∈ (r.enter site [] [site]).mentioned :=
      List.mem_append_right _ (List.mem_singleton.mpr rfl)
    have hall := hmentioned.addAll hsite offers
    rw [ids_enter, List.map_nil, List.append_nil] at hall
    refine ⟨?_, hall.2⟩
    have hrecord : r.note (.extend site offers) =
        (r.enter site [] [site]).enter site (fresh r.ids offers) [] := by
      simp only [Record.note, Record.enter, Filling.site, Filling.offers, Filling.mentions,
        List.map_nil, List.append_nil]
    rw [hrecord]
    exact hall.1

theorem shows_filled (calls : List Filling) : Shows (record calls) (filled calls) := by
  induction calls using List.reverseRecOn with
  | nil => exact shows_empty
  | append_singleton calls call ih =>
    rw [record, List.foldl_append, filled_concat]
    exact (ih.perform call).1

/-- What a call does to a book that shows a record. -/
structure Carried (r : Record) (b : Book) (call : Filling) : Prop where
  /-- An offer is accepted if and only if none accepted before has its id, and the first that is
  refused ends the call. -/
  fares : Fares r.ids call.offers (fresh r.ids call.offers) (b.perform call).1
  /-- What was accepted ahead of a refused offer stays at its site. -/
  offersFor_eq : ∀ site, (b.perform call).2.offersFor site =
    b.offersFor site ++ if site = call.site then fresh r.ids call.offers else []
  sites_eq : (b.perform call).2.sites =
    if call.site ∈ b.sites then b.sites else b.sites ++ call.mentions (fresh r.ids call.offers)
  /-- An offer that is refused by itself changes nothing. -/
  unchanged : ∀ site offer fault, call = .add site offer → (b.perform call).1 = .error fault →
    (b.perform call).2 = b

/-- A call mentions its own site or none. -/
theorem mentions_eq (known : List Int64) (call : Filling) :
    call.mentions (fresh known call.offers) = [] ∨
      call.mentions (fresh known call.offers) = [call.site] := by
  cases call with
  | add site offer =>
    by_cases h : offer.id ∈ known
    · left
      rw [Filling.offers, fresh_singleton_of_mem h]
      rfl
    · right
      rw [Filling.offers, fresh_singleton_of_not_mem h]
      rfl
  | extend site offers => exact Or.inr rfl

theorem Shows.carried (h : Shows r b) (call : Filling) : Carried r b call := by
  obtain ⟨hshows, hfares⟩ := h.perform call
  refine ⟨hfares, fun site => ?_, ?_, ?_⟩
  · rw [hshows.offersFor_eq, h.offersFor_eq]
    exact offersOf_enter r call.site site _ _
  · rw [hshows.sites_eq, h.sites_eq, Record.note, Record.enter]
    simp only [List.mem_eraseDups]
    rcases mentions_eq r.ids call with hm | hm
    · rw [hm, List.append_nil, List.append_nil, ite_self]
    · rw [hm, eraseDups_concat]
  · rintro site offer fault rfl hfault
    rw [Book.perform] at hfault ⊢
    split at hfault
    · cases hfault
    · rfl

/-- A call adds offers behind those of a site, or leaves them alone. -/
theorem Shows.offersFor_extends (h : Shows r b) (call : Filling) (site : SiteId) :
    b.offersFor site <+: (b.perform call).2.offersFor site := by
  rw [(h.carried call).offersFor_eq]
  exact List.prefix_append _ _

/-- What a site offers stays, whatever calls follow. -/
theorem offersFor_filled_append (calls further : List Filling) (site : SiteId) :
    (filled calls).offersFor site <+: (filled (calls ++ further)).offersFor site := by
  induction further using List.reverseRecOn with
  | nil => simp
  | append_singleton further call ih =>
    rw [← List.append_assoc, filled_concat]
    exact ih.trans ((shows_filled (calls ++ further)).offersFor_extends call site)

/-- Whatever calls were made on an empty book, it shows their record, lists every site and every
id once with just these ids in its index, and takes the next call as the record says. -/
theorem filled_shows_record (calls : List Filling) :
    Shows (record calls) (filled calls) ∧ (filled calls).Coherent ∧
      ∀ call, Carried (record calls) (filled calls) call ∧
        (filled (calls ++ [call])) = ((filled calls).perform call).2 := by
  refine ⟨shows_filled calls, coherent_filled calls, fun call => ?_⟩
  refine ⟨(shows_filled calls).carried call, ?_⟩
  rw [filled, List.foldl_append]
  rfl

end DemandResponse.Book
