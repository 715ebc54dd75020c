import DemandResponse.Json.Record
import DemandResponse.Power

/-!
# Written forms

A type has a written form if its values can be encoded as JSON and read back. Reading is more
liberal than writing; it checks the form of a value, but none of the rules of the domain.
Integers are read from plain integer numerals in the range of their type. Decimals are written as
strings, so that their places are kept, and read from strings and from numerals.
-/

namespace DemandResponse

/-- Values that can be written as JSON and read back. -/
class Wire (α : Type) where
  encode : α → Json
  decode? : Json → Option α

namespace Wire

def write {α : Type} [Wire α] (a : α) : String := (encode a).render

def read? {α : Type} [Wire α] (text : String) : Option α := (Json.parse? text).bind decode?

def required {α : Type} [Wire α] (field : Option Json) : Option α := field.bind decode?

def optional {α : Type} [Wire α] : Option Json → Option (Option α)
  | none => some none
  | some .null => some none
  | some j => (decode? j).map some

def withDefault {α : Type} [Wire α] (default : α) : Option Json → Option α
  | none => some default
  | some j => decode? j

instance : Wire Int64 where
  encode n := .int n.toInt
  decode? j := j.int?.bind Power.ofInt?

instance : Wire UInt64 where
  encode n := .int n.toNat
  decode? j := j.int?.bind fun n =>
    if 0 ≤ n ∧ n < UInt64.size then some (.ofNat n.toNat) else none

instance : Wire UInt32 where
  encode n := .int n.toNat
  decode? j := j.int?.bind fun n =>
    if 0 ≤ n ∧ n < UInt32.size then some (.ofNat n.toNat) else none

instance : Wire String where
  encode := .text
  decode? := Json.text?

instance : Wire Decimal where
  encode d := .text d.text
  decode?
    | .num n => n.decimal?
    | j => j.text?.bind fun s => Decimal.readAny? s.toList

instance {α : Type} [Wire α] : Wire (Option α) where
  encode
    | none => .null
    | some a => encode a
  decode?
    | .null => some none
    | j => (decode? j).map some

instance {α : Type} [Wire α] : Wire (List α) where
  encode as := .arr (as.map encode)
  decode?
    | .arr items => items.mapM decode?
    | _ => none

end Wire

end DemandResponse
