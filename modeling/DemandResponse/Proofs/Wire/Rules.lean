import DemandResponse.Proofs.Validity
import DemandResponse.Wire.Records

/-!
# Rules that reading does not check

Reading takes a record as it is written, so a valid text and a valid value are not the same. A rule
on JSON tells them apart before the value is made: a magnitude or a limit must be written without a
minus, and of two marks the first must not be the later one. What is read of a text is valid if and
only if the text obeys the rule, also where the record stands within another one. Valid values are
then safe to use; others are not.
-/

namespace DemandResponse

namespace Json

/-- A number that is written without a minus. -/
def Unsigned : Json → Prop
  | .num n => n.negative = false
  | _ => False

/-- The value that a record has under one of the names of its fields. -/
def field? (names : List String) (name : String) (j : Json) : Option Json :=
  (j.fields? names 0).bind fun fields => (fields[names.idxOf name]?).join

/-- A zero is never written with a minus. -/
theorem nonneg_iff_unsigned {j : Json} {x : Int} (h : j.int? = some x) : 0 ≤ x ↔ j.Unsigned := by
  cases j with
  | num n =>
    change n.int? = some x at h
    change _ ↔ n.negative = false
    unfold Numeral.int? at h
    dsimp only at h
    split at h
    · next hplain =>
      obtain rfl := Option.some.inj h
      cases hn : n.negative with
      | false => simp
      | true =>
        -- a zero with a minus is not an integer
        have hne : Digits.toNat n.whole ≠ 0 := fun h0 => hplain.2.2 ⟨hn, h0⟩
        simp only [if_true, Bool.true_eq_false, iff_false]
        omega
    · cases h
  | _ => cases h

theorem field?_eq {names : List String} {least : Nat} {j : Json} {fields : List (Option Json)}
    (h : j.fields? names least = some fields) (name : String) :
    j.field? names name = (fields[names.idxOf name]?).join := by
  have hzero : j.fields? names 0 = some fields := by
    cases j with
    | arr items =>
      unfold fields? at h ⊢
      dsimp only at h ⊢
      split at h
      · next hl => rwa [if_pos ⟨Nat.zero_le _, hl.2⟩]
      · cases h
    | obj members => exact h
    | _ => cases h
  rw [field?, hzero, Option.bind_some]

end Json

namespace Wire

open Matching (Activation Outcome)
open Negotiation (WorkProposal)

variable {α β : Type} [Wire α] [Wire β]

/-- Of all JSON that is decoded, that which obeys the rule gives the valid values. -/
def Decides (rule : Json → Prop) (valid : α → Prop) : Prop :=
  ∀ (j : Json) (a : α), decode? j = some a → (valid a ↔ rule j)

/-- What is read of the text is valid if and only if the text obeys the rule. -/
def Governs (text : String) (rule : Json → Prop) (valid : α → Prop) : Prop :=
  ∀ a : α, read? text = some a → (valid a ↔ ∃ j, Json.parse? text = some j ∧ rule j)

/-- What stands under the name is decoded to a part of the record. -/
def Keeps (get : α → β) (names : List String) (name : String) : Prop :=
  ∀ (j : Json) (a : α), decode? j = some a → ∃ m ∈ j.field? names name, decode? m = some (get a)

/-- The value of a field obeys a rule. -/
def At (names : List String) (name : String) (rule : Json → Prop) (j : Json) : Prop :=
  ∃ m ∈ j.field? names name, rule m

/-- All items of an array obey a rule. -/
def Each (rule : Json → Prop) : Json → Prop
  | .arr items => ∀ j ∈ items, rule j
  | _ => False

section Combining

variable {rule rule' : Json → Prop} {valid valid' : α → Prop}

theorem Decides.governs (h : Decides rule valid) (text : String) : Governs text rule valid := by
  intro a hread
  obtain ⟨j, hparse, hdecode⟩ := Option.bind_eq_some_iff.mp hread
  rw [h j a hdecode, hparse]
  simp

theorem Decides.and (h : Decides rule valid) (h' : Decides rule' valid') :
    Decides (fun j => rule j ∧ rule' j) fun a => valid a ∧ valid' a :=
  fun j a hj => and_congr (h j a hj) (h' j a hj)

theorem Decides.field {get : β → α} {names : List String} {name : String} (h : Decides rule valid)
    (hkeeps : Keeps get names name) : Decides (At names name rule) fun b => valid (get b) := by
  intro j b hj
  obtain ⟨m, hm, hdecode⟩ := hkeeps j b hj
  refine (h m (get b) hdecode).trans ?_
  constructor
  · exact fun hrule => ⟨m, hm, hrule⟩
  · rintro ⟨m', hm', hrule⟩
    obtain rfl := Option.mem_unique hm hm'
    exact hrule

theorem Decides.each (h : Decides rule valid) :
    Decides (Each rule) fun as : List α => ∀ a ∈ as, valid a := by
  intro j as hj
  cases j with
  | arr items =>
    change items.mapM decode? = some as at hj
    change (∀ a ∈ as, valid a) ↔ ∀ j ∈ items, rule j
    induction items generalizing as with
    | nil =>
      obtain rfl := Option.some.inj hj
      simp
    | cons item items ih =>
      rw [List.mapM_cons] at hj
      obtain ⟨a, ha, htail⟩ := Option.bind_eq_some_iff.mp hj
      obtain ⟨rest, hrest, has⟩ := Option.bind_eq_some_iff.mp htail
      obtain rfl := Option.some.inj has
      rw [List.forall_mem_cons, List.forall_mem_cons, h item a ha, ih rest hrest]
  | _ => cases hj

theorem decides_unsigned : Decides Json.Unsigned fun p : Power => 0 ≤ p := by
  intro j p hj
  obtain ⟨x, hx, hp⟩ := Option.bind_eq_some_iff.mp hj
  rw [← Power.ofInt?_eq_some_iff.mp hp] at hx
  refine Int64.le_iff_toInt_le.trans ?_
  exact Json.nonneg_iff_unsigned hx

end Combining

section Fields

/-- A record keeps a part if its reader requires it of the field that stands in its place. -/
theorem Keeps.of_fields {get : α → β} {names : List String} {name : String} {least : Nat}
    {make? : List (Option Json) → Option α}
    (hdecode : ∀ j, Wire.decode? j = (j.fields? names least).bind make?)
    (hmake : ∀ fields a, make? fields = some a →
      required (fields[names.idxOf name]?).join = some (get a)) : Keeps get names name := by
  intro j a hj
  rw [hdecode] at hj
  obtain ⟨fields, hfields, hj⟩ := Option.bind_eq_some_iff.mp hj
  rw [Json.field?_eq hfields]
  exact Option.bind_eq_some_iff.mp (hmake fields a hj)

theorem keeps_magnitude : Keeps Offer.magnitude offerFields "magnitude" := by
  refine .of_fields (fun _ => rfl) fun fields o h => ?_
  -- the reader takes exactly as many fields as the record has, and requires each of them
  split at h
  · simp only [Option.bind_eq_bind, Option.bind_eq_some_iff] at h
    obtain ⟨_, _, magnitude, hmagnitude, _, _, _, _, _, _, _, _, h⟩ := h
    obtain rfl := Option.some.inj h
    exact hmagnitude
  · cases h

theorem keeps_down : Keeps Band.down bandFields "down" := by
  refine .of_fields (fun _ => rfl) fun fields band h => ?_
  split at h
  · simp only [Option.bind_eq_bind, Option.bind_eq_some_iff] at h
    obtain ⟨down, hdown, _, _, h⟩ := h
    obtain rfl := Option.some.inj h
    exact hdown
  · cases h

theorem keeps_up : Keeps Band.up bandFields "up" := by
  refine .of_fields (fun _ => rfl) fun fields band h => ?_
  split at h
  · simp only [Option.bind_eq_bind, Option.bind_eq_some_iff] at h
    obtain ⟨_, _, up, hup, h⟩ := h
    obtain rfl := Option.some.inj h
    exact hup
  · cases h

theorem keeps_offer : Keeps Activation.offer activationFields "offer" := by
  refine .of_fields (fun _ => rfl) fun fields a h => ?_
  split at h
  · simp only [Option.bind_eq_bind, Option.bind_eq_some_iff] at h
    obtain ⟨_, _, offer, hoffer, _, _, h⟩ := h
    obtain rfl := Option.some.inj h
    exact hoffer
  · cases h

theorem keeps_activations : Keeps Outcome.activations outcomeFields "activations" := by
  refine .of_fields (fun _ => rfl) fun fields o h => ?_
  split at h
  · simp only [Option.bind_eq_bind, Option.bind_eq_some_iff] at h
    obtain ⟨_, _, _, _, activations, hactivations, h⟩ := h
    obtain rfl := Option.some.inj h
    exact hactivations
  · cases h

theorem marks_of_decode? {j : Json} {p : WorkProposal} (h : decode? j = some p) :
    optional (j.field? proposalFields "begin_mark") = some p.beginMark ∧
      optional (j.field? proposalFields "end_mark") = some p.endMark := by
  obtain ⟨fields, hfields, hmake⟩ := Option.bind_eq_some_iff.mp h
  rw [Json.field?_eq hfields, Json.field?_eq hfields]
  split at hmake
  · simp only [Option.bind_eq_bind, Option.bind_eq_some_iff] at hmake
    obtain ⟨_, _, _, _, _, _, first, hfirst, last, hlast, hmake⟩ := hmake
    obtain rfl := Option.some.inj hmake
    exact ⟨hfirst, hlast⟩
  · cases hmake

/-- A mark is written as its tick, or not as an integer. -/
theorem int?_of_optional {field : Option Json} {mark : Option Tick}
    (h : optional field = some mark) :
    field.bind Json.int? = mark.map fun t => (t.toNat : Int) := by
  have hread : ∀ j : Json, (decode? j).map some = some mark →
      j.int? = mark.map fun t => (t.toNat : Int) := by
    intro j hj
    obtain ⟨t, ht, rfl⟩ := Option.map_eq_some_iff.mp hj
    obtain ⟨x, hx, hrange⟩ := Option.bind_eq_some_iff.mp ht
    obtain ⟨⟨hlo, hhi⟩, hofNat⟩ := Option.ite_none_right_eq_some.mp hrange
    obtain rfl := Option.some.inj hofNat
    rw [hx, Option.map_some, UInt64.toNat_ofNat_of_lt' (by omega), Int.toNat_of_nonneg hlo]
  cases field with
  | none =>
    obtain rfl := Option.some.inj h
    rfl
  | some j =>
    rw [Option.bind_some]
    cases j with
    | null =>
      obtain rfl := Option.some.inj h
      rfl
    | _ => exact hread _ h

end Fields

section Rules

def offerRule : Json → Prop := At offerFields "magnitude" Json.Unsigned

def bandRule (j : Json) : Prop :=
  At bandFields "down" Json.Unsigned j ∧ At bandFields "up" Json.Unsigned j

def activationRule : Json → Prop := At activationFields "offer" offerRule

def outcomeRule : Json → Prop := At outcomeFields "activations" (Each activationRule)

def windowRule (j : Json) : Prop :=
  ∀ first ∈ (j.field? proposalFields "begin_mark").bind Json.int?,
    ∀ last ∈ (j.field? proposalFields "end_mark").bind Json.int?, first ≤ last

theorem decides_offerRule : Decides offerRule Offer.Valid := by
  intro j o hj
  rw [Offer.valid_iff]
  exact decides_unsigned.field keeps_magnitude j o hj

theorem decides_bandRule : Decides bandRule Band.Valid := by
  intro j band hj
  rw [Band.valid_iff]
  exact (decides_unsigned.field keeps_down).and (decides_unsigned.field keeps_up) j band hj

theorem decides_activationRule : Decides activationRule Activation.Valid :=
  decides_offerRule.field keeps_offer

theorem decides_outcomeRule : Decides outcomeRule Outcome.Valid :=
  decides_activationRule.each.field keeps_activations

theorem decides_windowRule : Decides windowRule WorkProposal.Ordered := by
  intro j p hj
  obtain ⟨hfirst, hlast⟩ := marks_of_decode? hj
  rw [windowRule, int?_of_optional hfirst, int?_of_optional hlast, WorkProposal.Ordered]
  simp [UInt64.le_iff_toNat_le]

/-- A value that is read is valid if and only if its text obeys the rule of its type, whatever else
the text says. Valid offers have a contribution, and valid bands a share in the fraction they are
asked for, which exists unless together they exceed the decimals. What a book of valid offers can
deliver is not negative, and an aggregator that has such offers reports it, unless an id comes again.
No weaker rule for offers would do. -/
theorem accepted_valid_iff (text : String) :
    Governs text offerRule Offer.Valid ∧ Governs text bandRule Band.Valid ∧
    Governs text windowRule WorkProposal.Ordered ∧ Governs text activationRule Activation.Valid ∧
    Governs text outcomeRule Outcome.Valid ∧
    (∀ o : Offer, o.Valid → ∃ p, o.contribution = .ok p) ∧
    (∀ (imbalance : Power) (bands : List Band), (∀ band ∈ bands, band.Valid) →
      ((∃ f, Apportionment.fraction imbalance bands = .ok f) ↔
        imbalance = 0 ∨ Apportionment.capacity imbalance bands < Decimal.limit) ∧
      ∀ f, Apportionment.fraction imbalance bands = .ok f →
        ∀ band ∈ bands, ∃ v, Apportionment.share f imbalance band = .ok v) ∧
    (∀ calls : List Book.Filling, (∀ call ∈ calls, ∀ o ∈ call.offers, o.Valid) →
      ∀ way, 0 ≤ (Book.filled calls).deliverable way) ∧
    (∀ (σ : Type) (a : Aggregator σ) (w : σ), (∀ s ∈ a.sites, ∀ o ∈ s.2.offers w, o.Valid) →
      (∃ band, band.Valid ∧ (a.capacity w).1 = .ok band) ∨
        ∃ id, (a.capacity w).1 = .error (.repeatedOffer id)) ∧
    (∀ (site : SiteId) (o : Offer),
      o.Valid ↔ ∀ way, 0 ≤ (Book.filled [.add site o]).deliverable way) := by
  refine ⟨decides_offerRule.governs text, decides_bandRule.governs text,
    decides_windowRule.governs text, decides_activationRule.governs text,
    decides_outcomeRule.governs text, ?contribution, ?share, ?deliverable, ?capacity, ?needed⟩
  case contribution => exact fun o h => h.exists_contribution
  case share =>
    intro imbalance bands hvalid
    exact ⟨Apportionment.exists_fraction_iff hvalid,
      fun f hf band hband => Apportionment.exists_share hvalid hf hband⟩
  case deliverable => exact fun calls h way => Book.deliverable_nonneg_of_valid h way
  case capacity => exact fun σ a w h => Aggregator.capacity_of_valid h
  case needed => exact fun site o => Offer.valid_iff_deliverable site

/-- An aggregator with one site, which offers one offer. -/
def offeringOne (o : Offer) : Aggregator Unit where
  sites := [(⟨"A"⟩, ⟨fun _ => [o], fun _ w => w⟩)]
  matcher := Matching.Matcher.ofSites .exhaustive [⟨"A"⟩]
  frequency := 1
  ticks := 0
  target := 0
  book := .empty

/-- An offer of 5 that is read from an array, and what can be done with it. -/
theorem accepted_valid_iff_five :
    (read? "[1,5,\"UP\",0,0,0]" : Option Offer) = some ⟨1, 5, .up, 0, 0, 0⟩ ∧
      (∃ j, Json.parse? "[1,5,\"UP\",0,0,0]" = some j ∧ offerRule j) ∧
      (∃ p, (⟨1, 5, .up, 0, 0, 0⟩ : Offer).contribution = .ok p) ∧
      (∃ f, Apportionment.fraction 3 [⟨0, 5⟩] = .ok f ∧
        ∃ v, Apportionment.share f 3 ⟨0, 5⟩ = .ok v) ∧
      (∀ way, 0 ≤ (Book.filled [.add ⟨"A"⟩ ⟨1, 5, .up, 0, 0, 0⟩]).deliverable way) ∧
      ((∃ band, band.Valid ∧ ((offeringOne ⟨1, 5, .up, 0, 0, 0⟩).capacity ()).1 = .ok band) ∨
        ∃ id, ((offeringOne ⟨1, 5, .up, 0, 0, 0⟩).capacity ()).1 =
          .error (.repeatedOffer id)) := by
  obtain ⟨hoffer, -, -, -, -, hcontribution, hshare, hdeliverable, hcapacity, -⟩ :=
    accepted_valid_iff "[1,5,\"UP\",0,0,0]"
  have hread : (read? "[1,5,\"UP\",0,0,0]" : Option Offer) = some ⟨1, 5, .up, 0, 0, 0⟩ := by
    decide +kernel
  obtain ⟨hfraction, hshares⟩ := hshare 3 [⟨0, 5⟩] (by decide)
  obtain ⟨f, hf⟩ := hfraction.mpr (Or.inr (by decide))
  exact ⟨hread, (hoffer _ hread).mp (by decide), hcontribution _ (by decide),
    ⟨f, hf, hshares f hf _ List.mem_cons_self⟩, hdeliverable _ (by decide),
    hcapacity Unit (offeringOne ⟨1, 5, .up, 0, 0, 0⟩) () (by decide)⟩

/-- An offer that is written with a negative magnitude. -/
def offerOfLess : String :=
  "\x7b\"id\":1,\"magnitude\":-5,\"direction\":\"UP\"," ++
    "\"duration\":0,\"reaction_time\":0,\"cease_time\":0\x7d"

/-- Texts that are accepted give an offer of less than nothing, alone and within an outcome, an
offer that has no contribution, a band that has no share, and a window that closes before it opens.
A book of the first offer delivers less than nothing, which is at fault as a capacity. -/
theorem accepted_invalid :
    (read? offerOfLess : Option Offer) = some ⟨1, -5, .up, 0, 0, 0⟩ ∧
      ¬ (⟨1, -5, .up, 0, 0, 0⟩ : Offer).Valid ∧
      (Book.filled [.add ⟨"A"⟩ ⟨1, -5, .up, 0, 0, 0⟩]).deliverable .up = -5 ∧
      ((offeringOne ⟨1, -5, .up, 0, 0, 0⟩).capacity ()).1 = .error (.negativeBand 0 (-5)) ∧
    (read? "[0,5,[[\"A\",[1,-5,\"UP\",0,0,0],[1]]]]" : Option Outcome) =
        some ⟨0, 5, [⟨⟨"A"⟩, ⟨1, -5, .up, 0, 0, 0⟩, ⟨1⟩⟩]⟩ ∧
    (read? "[1,-9223372036854775808,\"DOWN\",0,0,0]" : Option Offer) =
        some ⟨1, Int64.minValue, .down, 0, 0, 0⟩ ∧
      (⟨1, Int64.minValue, .down, 0, 0, 0⟩ : Offer).contribution = .error .productOverflow ∧
    (read? "[-9223372036854775808,0]" : Option Band) = some ⟨Int64.minValue, 0⟩ ∧
      (∀ f, Apportionment.share f (-1) ⟨Int64.minValue, 0⟩ = .error .negationOverflow) ∧
    (read? "[\"call\",\"1\",\"0\",5,3]" : Option WorkProposal) =
        some ⟨"call", .ofInt64 1, .ofInt64 0, some 5, some 3⟩ ∧
      ¬ (⟨"call", .ofInt64 1, .ofInt64 0, some 5, some 3⟩ : WorkProposal).Ordered := by
  refine ⟨by decide +kernel, by decide, by decide +kernel, by decide +kernel, by decide +kernel,
    by decide +kernel, by decide, by decide +kernel, fun f => rfl, by decide +kernel, ?_⟩
  exact fun h => absurd (h 5 rfl 3 rfl) (by decide)

end Rules

end Wire

end DemandResponse
