import DemandResponse.Proofs.Decimal.Text
import DemandResponse.Proofs.Json.Rendering
import DemandResponse.Wire.Basic

/-!
# Written forms that are read back

A value is restored as another one if its written form has a text and is decoded as that other
one; then reading the text gives it as well. A type is faithful if its values are restored as
themselves; of the basic types only decimals are not, as zero loses its sign. A record is written
as an object with distinct keys, so each of its fields is found again, and is restored if all of
its fields are.
-/

namespace DemandResponse

namespace Json

theorem wellFormed_text (s : String) : (text s).WellFormed := .str (Text.wellFormed_ofChars _)

theorem wellFormed_int (n : Int) : (int n).WellFormed := .num (Numeral.wellFormed_ofInt n)

theorem text?_text (s : String) : (text s).text? = some s := by
  rw [text, text?, Text.decode_ofChars, Option.map_some, String.ofList_toList]

theorem int?_int (n : Int) : (int n).int? = some n := Numeral.int?_ofInt n

theorem wellFormed_object {names : List String} {values : List Json}
    (h : ∀ j ∈ values, j.WellFormed) : (object (names.zip values)).WellFormed := by
  refine .obj ?_ ?_
  · intro m hm
    obtain ⟨m, -, rfl⟩ := List.mem_map.1 hm
    exact Text.wellFormed_ofChars _
  · intro m hm
    obtain ⟨m, hmem, rfl⟩ := List.mem_map.1 hm
    exact h m.2 (List.of_mem_zip hmem).2

theorem members?_object (members : List (String × Json)) :
    (object members).members? = some members := by
  rw [object, members?]
  induction members with
  | nil => rfl
  | cons m members ih =>
    rw [List.map_cons, List.mapM_cons, ih, Text.decode_ofChars, Option.map_some,
      String.ofList_toList]
    rfl

/-- Of members with distinct keys, each is the only one under its key. -/
theorem filter_key {members : List (String × Json)} (hn : (members.map Prod.fst).Nodup)
    {m : String × Json} (hm : m ∈ members) : members.filter (fun m' => m'.1 = m.1) = [m] := by
  induction members with
  | nil => cases hm
  | cons head members ih =>
    obtain ⟨hhead, htail⟩ := List.nodup_cons.1 hn
    obtain rfl | hmem := List.mem_cons.1 hm
    · have hnone : members.filter (fun m' => m'.1 = m.1) = [] := by
        rw [List.filter_eq_nil_iff]
        intro m' hm' heq
        exact hhead (of_decide_eq_true heq ▸ List.mem_map_of_mem hm')
      rw [List.filter_cons, if_pos (decide_eq_true rfl), hnone]
    · have hne : head.1 ≠ m.1 := fun heq => hhead (heq ▸ List.mem_map_of_mem hmem)
      rw [List.filter_cons, if_neg (by rwa [decide_eq_true_eq]), ih htail hmem]

theorem mapM_keys {find? : String → Option (Option Json)} {members : List (String × Json)}
    (h : ∀ m ∈ members, find? m.1 = some (some m.2)) :
    (members.map Prod.fst).mapM find? = some ((members.map Prod.snd).map some) := by
  induction members with
  | nil => rfl
  | cons m members ih =>
    rw [List.map_cons, List.mapM_cons, h m List.mem_cons_self,
      ih fun m' hm' => h m' (List.mem_cons_of_mem m hm')]
    rfl

/-- All fields of a record are found in the object that it is written as. -/
theorem fields?_object {names : List String} {values : List Json} (hn : names.Nodup)
    (hl : names.length = values.length) (least : Nat) :
    (object (names.zip values)).fields? names least = some (values.map some) := by
  have hkeys : (names.zip values).map Prod.fst = names := List.map_fst_zip (Nat.le_of_eq hl)
  have hvalues : (names.zip values).map Prod.snd = values :=
    List.map_snd_zip (Nat.le_of_eq hl.symm)
  have hfind : ∀ m ∈ names.zip values,
      unique? (names.zip values) m.1 = some (some m.2) := by
    intro m hm
    rw [unique?, filter_key (hkeys.symm ▸ hn) hm]
  calc (object (names.zip values)).fields? names least
    _ = names.mapM (unique? (names.zip values)) := by
      change (members? (object _)).bind _ = _
      rw [members?_object, Option.bind_some]
    _ = some (values.map some) := by
      have h := mapM_keys hfind
      rwa [hkeys, hvalues] at h

end Json

namespace Wire

variable {α : Type} [Wire α]

/-- What is written of a value has a text, and is taken for another value. -/
structure Restores (a b : α) : Prop where
  wellFormed : (encode a).WellFormed
  decode? : decode? (encode a) = some b

/-- A type whose values are all read back as themselves. -/
class Faithful (α : Type) [Wire α] : Prop where
  restores (a : α) : Restores a a

/-- Reading what was written gives the same value. -/
def ReadsBack (α : Type) [Wire α] : Prop := ∀ a : α, read? (write a) = some a

theorem Restores.read?_eq {a b : α} (h : Restores a b) : read? (write a) = some b := by
  rw [read?, write, Json.parse?_render h.wellFormed, Option.bind_some, h.decode?]

/-- A record is restored if its reader, given all the fields that were written, makes up the
value. -/
theorem Restores.of_fields {a b : α} {names : List String} {values : List Json} {least : Nat}
    {make? : List (Option Json) → Option α} (hencode : encode a = .object (names.zip values))
    (hdecode : ∀ j, Wire.decode? j = (j.fields? names least).bind make?) (hn : names.Nodup)
    (hl : names.length = values.length) (hv : ∀ j ∈ values, j.WellFormed)
    (hmake : make? (values.map some) = some b) : Restores a b where
  wellFormed := hencode ▸ Json.wellFormed_object hv
  decode? := by rw [hdecode, hencode, Json.fields?_object hn hl, Option.bind_some, hmake]

section Faithful

variable [Faithful α]

@[simp] theorem wellFormed_encode (a : α) : (encode a).WellFormed :=
  (Faithful.restores a).wellFormed

@[simp] theorem decode?_encode (a : α) : decode? (encode a) = some a :=
  (Faithful.restores a).decode?

theorem readsBack : ReadsBack α := fun a => (Faithful.restores a).read?_eq

@[simp] theorem required_encode (a : α) : required (some (encode a)) = some a :=
  decode?_encode a

@[simp] theorem withDefault_encode (default a : α) :
    withDefault default (some (encode a)) = some a := decode?_encode a

theorem wellFormed_encode_option (a : Option α) : (encode a).WellFormed := by
  cases a with
  | none => exact .null
  | some b => exact wellFormed_encode b

/-- A field that may be missing is restored, if no value is written as nothing. -/
theorem optional_encode {a : Option α} (hnull : ∀ b ∈ a, encode b ≠ .null) :
    optional (some (encode a)) = some a := by
  cases a with
  | none => rfl
  | some b =>
    have hsome : optional (some (encode b)) = (decode? (encode b) : Option α).map some := by
      rw [optional]
      exact hnull b rfl
    change optional (some (encode b)) = some (some b)
    rw [hsome, decode?_encode, Option.map_some]

instance : Faithful (List α) where
  restores as := {
    wellFormed := by
      refine .arr fun j hj => ?_
      obtain ⟨a, -, rfl⟩ := List.mem_map.1 hj
      exact wellFormed_encode a
    decode? := by
      change (as.map encode).mapM Wire.decode? = some as
      induction as with
      | nil => rfl
      | cons a as ih =>
        rw [List.map_cons, List.mapM_cons, decode?_encode, ih]
        rfl }

end Faithful

instance : Faithful Int64 where
  restores n := {
    wellFormed := Json.wellFormed_int _
    decode? := by
      change ((Json.int n.toInt).int?).bind Power.ofInt? = some n
      rw [Json.int?_int, Option.bind_some, Power.ofInt?_toInt] }

instance : Faithful UInt64 where
  restores n := {
    wellFormed := Json.wellFormed_int _
    decode? := by
      have hrange : (0 : Int) ≤ n.toNat ∧ (n.toNat : Int) < UInt64.size :=
        ⟨Int.natCast_nonneg _, Int.ofNat_lt.2 n.toNat_lt⟩
      change ((Json.int n.toNat).int?).bind _ = some n
      rw [Json.int?_int, Option.bind_some, if_pos hrange, Int.toNat_natCast,
        UInt64.ofNat_toNat] }

instance : Faithful UInt32 where
  restores n := {
    wellFormed := Json.wellFormed_int _
    decode? := by
      have hrange : (0 : Int) ≤ n.toNat ∧ (n.toNat : Int) < UInt32.size :=
        ⟨Int.natCast_nonneg _, Int.ofNat_lt.2 n.toNat_lt⟩
      change ((Json.int n.toNat).int?).bind _ = some n
      rw [Json.int?_int, Option.bind_some, if_pos hrange, Int.toNat_natCast,
        UInt32.ofNat_toNat] }

instance : Faithful String where
  restores s := ⟨Json.wellFormed_text s, Json.text?_text s⟩

/-- A decimal keeps its places; only a zero loses its sign. -/
theorem restores_decimal (d : Decimal) : Restores d d.clearZero where
  wellFormed := Json.wellFormed_text _
  decode? := by
    change ((Json.text d.text).text?).bind _ = some d.clearZero
    rw [Json.text?_text, Option.bind_some, Decimal.text, String.toList_ofList,
      Decimal.readAny?_chars]

end Wire

end DemandResponse
