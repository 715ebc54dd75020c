import DemandResponse.Proofs.Book.Filling
import DemandResponse.Proofs.Digits
import DemandResponse.Proofs.Random.Draw
import DemandResponse.Scenario
import Mathlib.Data.List.Range

/-!
# What random books look like

Whatever a generator draws that keeps to ranges, ids run on from offer to offer and from site to
site, and every offer keeps the bounds of the scenario. So no id comes twice, and since numbers of
any length have different names, no site does: the book takes over all that was drawn.
-/

namespace DemandResponse.Scenario

open DemandResponse.Random

variable {ρ : Type} {g : Generator ρ} {s : Scenario}

/-- The offer keeps the bounds of the scenario. -/
structure Admits (s : Scenario) (o : Offer) : Prop where
  least : s.minMagnitude ≤ o.magnitude
  greatest : o.magnitude ≤ s.maxMagnitude
  reaction : o.reaction ≤ s.maxReaction

/-- Ids that run on from a number. -/
def idsFrom (id count : Nat) : List Int64 := (List.range' id count).map Int64.ofNat

theorem length_idsFrom (id count : Nat) : (idsFrom id count).length = count := by
  rw [idsFrom, List.length_map, List.length_range']

theorem idsFrom_add (id m n : Nat) : idsFrom id (m + n) = idsFrom id m ++ idsFrom (id + m) n := by
  rw [idsFrom, idsFrom, idsFrom, ← List.map_append, List.range'_append_1]

/-- The number of a site stands in its name as it is shown, with zeros in front of it up to three
digits. -/
theorem siteName_eq (n : Nat) :
    siteName n = ⟨"SITE-" ++ String.ofList ((Nat.toDigits 10 n).leftpad 3 '0')⟩ := by
  have hlabel : String.ofList "SITE-".toList = "SITE-" := String.ofList_toList
  have htext : String.ofList ("SITE-".toList ++ Digits.padded 3 n) =
      "SITE-" ++ String.ofList ((Nat.toDigits 10 n).leftpad 3 '0') := by
    rw [String.ofList_append, hlabel, Digits.padded, Digits.chars_eq_toDigits]
  exact congrArg SiteId.mk htext

example : siteName 7 = ⟨"SITE-007"⟩ ∧ siteName 1234 = ⟨"SITE-1234"⟩ := by
  rw [siteName_eq, siteName_eq]
  decide

theorem siteName_inj {m n : Nat} (h : siteName m = siteName n) : m = n := by
  have htext := String.ofList_injective (SiteId.mk.inj h)
  have hpadded := List.append_cancel_left htext
  have hread := congrArg Digits.read? hpadded
  rw [Digits.read?_padded, Digits.read?_padded] at hread
  exact Option.some.inj hread

section Draws

variable (hg : g.Ranged) (hmin : 0 ≤ s.minMagnitude) (hmax : s.minMagnitude ≤ s.maxMagnitude)

include hg hmin hmax

theorem yields_drawOffer (id : Nat) :
    Yields (s.drawOffer g id) fun o => o.id = .ofNat id ∧ s.Admits o := by
  have hlow : 0 ≤ s.minMagnitude.toInt := Int64.le_iff_toInt_le.mp hmin
  have hle : s.minMagnitude.toInt ≤ s.maxMagnitude.toInt := Int64.le_iff_toInt_le.mp hmax
  have hhigh := Int64.toInt_lt s.maxMagnitude
  have hsize : s.maxMagnitude.toInt < Width.long.size := Int.lt_trans hhigh (by decide)
  have hreaction : (s.maxReaction.toNat : Int) < Width.short.size := by
    exact_mod_cast s.maxReaction.toNat_lt
  refine (yields_flip g).bind fun up _ => ?_
  refine (hg.yields_pick hlow hle hsize).bind fun magnitude hm => ?_
  refine (hg.yields_pick (Int.le_refl 0) (Int.natCast_nonneg _) hreaction).bind
    fun reaction hr => ?_
  have htoInt : (Int64.ofInt magnitude).toInt = magnitude :=
    Int64.toInt_ofInt_of_le (by omega) (by omega)
  refine Yields.lift (if_pos ?_) ⟨rfl, ?_, ?_, ?_⟩
  · rw [Int64.le_iff_toInt_le, htoInt]
    exact Int.le_trans hlow hm.1
  · rw [Int64.le_iff_toInt_le, htoInt]
    exact hm.1
  · rw [Int64.le_iff_toInt_le, htoInt]
    exact hm.2
  · have hle : reaction.toNat ≤ s.maxReaction.toNat := by omega
    rw [UInt32.le_iff_toNat_le,
      UInt32.toNat_ofNat_of_lt' (Nat.lt_of_le_of_lt hle s.maxReaction.toNat_lt)]
    exact hle

theorem yields_drawOffers (id count : Nat) :
    Yields (s.drawOffers g id count) fun offers =>
      offers.map (·.id) = idsFrom id count ∧ ∀ o ∈ offers, s.Admits o := by
  induction count generalizing id with
  | zero => exact .pure ⟨rfl, fun o ho => absurd ho List.not_mem_nil⟩
  | succ count ih =>
    refine (yields_drawOffer hg hmin hmax id).bind fun offer ho => ?_
    refine (ih (id + 1)).bind fun rest hrest => .pure ⟨?_, ?_⟩
    · rw [List.map_cons, ho.1, hrest.1]
      rfl
    · exact List.forall_mem_cons.mpr ⟨ho.2, hrest.2⟩

/-- The sites that are drawn with their offers. -/
structure Drawn (s : Scenario) (number id count : Nat) (entries : List (SiteId × List Offer)) :
    Prop where
  sites : entries.map Prod.fst = (List.range' number count).map siteName
  ids : ∃ total ≤ count * s.maxOffers, Book.idsOf entries = idsFrom id total
  length_le : ∀ e ∈ entries, e.2.length ≤ s.maxOffers
  admits : ∀ e ∈ entries, ∀ o ∈ e.2, s.Admits o

theorem yields_drawSites (number id count : Nat) (hoffers : s.maxOffers < Width.long.size) :
    Yields (s.drawSites g number id count) (s.Drawn number id count) := by
  -- the ids of the remaining sites run on behind those that the first site has used
  induction count generalizing number id with
  | zero =>
    exact .pure ⟨rfl, ⟨0, Nat.zero_le _, rfl⟩, fun e he => absurd he List.not_mem_nil,
      fun e he => absurd he List.not_mem_nil⟩
  | succ count ih =>
    have hsize : (s.maxOffers : Int) < Width.long.size := by exact_mod_cast hoffers
    refine (hg.yields_pick (Int.le_refl 0) (Int.natCast_nonneg _) hsize).bind fun size hsize => ?_
    refine (yields_drawOffers hg hmin hmax id size.toNat).bind fun offers ho => ?_
    refine (ih (number + 1) (id + offers.length)).bind fun rest hrest => .pure ?_
    have hlength : offers.length = size.toNat := by
      have h := congrArg List.length ho.1
      rwa [List.length_map, length_idsFrom] at h
    have hle : offers.length ≤ s.maxOffers := by omega
    obtain ⟨total, htotal, hids⟩ := hrest.ids
    refine ⟨?_, ⟨offers.length + total, ?_, ?_⟩, ?_, ?_⟩
    · rw [List.map_cons, hrest.sites]
      rfl
    · rw [Nat.succ_mul]
      omega
    · rw [idsFrom_add, ← hids, Book.idsOf, List.flatMap_cons, List.map_append, ho.1, hlength]
      rfl
    · exact List.forall_mem_cons.mpr ⟨hle, hrest.length_le⟩
    · exact List.forall_mem_cons.mpr ⟨ho.2, hrest.admits⟩

end Draws

theorem Drawn.sites_nodup {number id count : Nat} {entries : List (SiteId × List Offer)}
    (h : s.Drawn number id count entries) : (entries.map Prod.fst).Nodup := by
  rw [h.sites]
  exact List.Nodup.map (fun m n => siteName_inj) List.nodup_range'

/-- Ids that run on within the range of ids are distinct, and count as the numbers do. -/
theorem toInt_idsFrom {id count : Nat} (h : id + count ≤ 0x8000000000000000) :
    (idsFrom id count).map (·.toInt) = (List.range' id count).map Int.ofNat := by
  rw [idsFrom, List.map_map]
  refine List.map_congr_left fun n hn => ?_
  rw [List.mem_range'_1] at hn
  exact Int64.toInt_ofNat_of_lt (by omega)

theorem nodup_idsFrom {id count : Nat} (h : id + count ≤ 0x8000000000000000) :
    (idsFrom id count).Nodup := by
  refine List.Nodup.of_map (·.toInt) ?_
  rw [toInt_idsFrom h]
  exact List.Nodup.map (fun _ _ => Int.ofNat.inj) List.nodup_range'

/-- Without sites nothing is drawn, so the bound on the offers of a site is then free. -/
theorem exists_drawn (hg : g.Ranged) (hmin : 0 ≤ s.minMagnitude)
    (hmax : s.minMagnitude ≤ s.maxMagnitude)
    (hids : s.siteCount * s.maxOffers < 0x7fffffffffffffff) (r : ρ) :
    ∃ entries rest, s.drawSites g 0 1 s.siteCount r = .ok (entries, rest) ∧
      s.Drawn 0 1 s.siteCount entries := by
  cases hcount : s.siteCount with
  | zero =>
    exact ⟨[], r, rfl, rfl, ⟨0, Nat.zero_le _, rfl⟩, fun e he => absurd he List.not_mem_nil,
      fun e he => absurd he List.not_mem_nil⟩
  | succ count =>
    have hoffers : s.maxOffers < Width.long.size := by
      have hle : s.maxOffers ≤ s.siteCount * s.maxOffers :=
        Nat.le_mul_of_pos_left _ (hcount ▸ Nat.succ_pos count)
      change s.maxOffers < 0x10000000000000000
      omega
    exact yields_drawSites hg hmin hmax 0 1 (count + 1) hoffers r

/-- The book takes over what is drawn, as long as there are ids enough. -/
theorem generate_of_drawn {entropy rest : ρ} {entries : List (SiteId × List Offer)}
    (hdraw : s.drawSites g 0 1 s.siteCount (s.start g entropy) = .ok (entries, rest))
    (hsites : (entries.map Prod.fst).Nodup) (hids : (Book.idsOf entries).Nodup) :
    s.generate g entropy = .ok (Book.listing entries) := by
  have hbook : Book.extendAll entries .empty = (.ok (), Book.listing entries) :=
    Book.extendAll_listing hsites hids
  rw [generate, StateT.run, hdraw]
  simp only [bind, Except.bind, hbook]
  rfl

/-- A generator that keeps to ranges makes a book from every seed, and without a seed from every
state. Its sites are as many as are wanted, numbered from zero, each under a name of its own; every
site has at most as many offers as it may have, their ids count from one through the book, and all
offers keep the bounds. -/
theorem generate_consecutive (g : Generator ρ) (hg : g.Ranged) (entropy : ρ) (s : Scenario)
    (hmin : 0 ≤ s.minMagnitude) (hmax : s.minMagnitude ≤ s.maxMagnitude)
    (hids : s.siteCount * s.maxOffers < 0x7fffffffffffffff) :
    ∃ b, s.generate g entropy = .ok b ∧
      b.sites.map (·.text) = (List.range s.siteCount).map (fun n =>
        "SITE-" ++ String.ofList ((Nat.toDigits 10 n).leftpad 3 '0')) ∧
      b.sites.Nodup ∧
      (∀ e ∈ b.entries, e.2.length ≤ s.maxOffers) ∧
      b.offers.map (·.id.toInt) = (List.range b.offerCount).map (fun i : Nat => (i : Int) + 1) ∧
      ∀ o ∈ b.offers, s.Admits o := by
  obtain ⟨entries, rest, hdraw, hdrawn⟩ := exists_drawn hg hmin hmax hids (s.start g entropy)
  obtain ⟨total, htotal, hentries⟩ := hdrawn.ids
  have hfit : 1 + total ≤ 0x8000000000000000 := by omega
  have hnodup : (Book.idsOf entries).Nodup := hentries ▸ nodup_idsFrom hfit
  refine ⟨Book.listing entries, generate_of_drawn hdraw hdrawn.sites_nodup hnodup, ?_,
    hdrawn.sites_nodup, hdrawn.length_le, ?_, ?_⟩
  · have hsites : (Book.listing entries).sites = (List.range s.siteCount).map siteName := by
      rw [List.range_eq_range']
      exact hdrawn.sites
    rw [hsites, List.map_map]
    exact List.map_congr_left fun n _ => congrArg SiteId.text (siteName_eq n)
  · have hcount : (Book.listing entries).offerCount = total := by
      have h := congrArg List.length hentries
      rwa [Book.idsOf, List.length_map, length_idsFrom] at h
    have hint : (Book.listing entries).offers.map (·.id.toInt) =
        (Book.idsOf entries).map (·.toInt) := by
      rw [Book.idsOf, List.map_map]
      rfl
    rw [hint, hentries, toInt_idsFrom hfit, hcount, List.range'_eq_map_range, List.map_map]
    exact List.map_congr_left fun i _ => Int.add_comm 1 i
  · intro o ho
    obtain ⟨e, he, hoe⟩ := List.mem_flatMap.mp ho
    exact hdrawn.admits e he o hoe

/-- Five sites with the usual bounds, under the seed seven. -/
theorem generate_consecutive_five :
    ∃ b, ({ siteCount := 5, seed := some 7 } : Scenario).book = .ok b ∧
      b.sites.map (·.text) = (List.range 5).map (fun n =>
        "SITE-" ++ String.ofList ((Nat.toDigits 10 n).leftpad 3 '0')) ∧
      b.sites.Nodup ∧
      (∀ e ∈ b.entries, e.2.length ≤ 3) ∧
      b.offers.map (·.id.toInt) = (List.range b.offerCount).map (fun i : Nat => (i : Int) + 1) ∧
      ∀ o ∈ b.offers, ({ siteCount := 5, seed := some 7 } : Scenario).Admits o :=
  generate_consecutive standard standard_ranged (.ofKey default)
    { siteCount := 5, seed := some 7 } (by decide) (by decide) (by decide)

end DemandResponse.Scenario
