import DemandResponse.Json.Reading

/-!
# Reading records

A record is read from an object, where the order of members is free and members of other names
are passed over, or from an array of its fields in order. All keys of an object must be texts,
and no field may occur twice. A choice is read from its name, or from an object that maps its
name to null.
-/

namespace DemandResponse.Json

def text? : Json → Option String
  | .str text => (Text.decode text).map String.ofList
  | _ => none

def int? : Json → Option Int
  | .num n => n.int?
  | _ => none

/-- The members of an object under their decoded keys. -/
def members? : Json → Option (List (String × Json))
  | .obj members =>
    members.mapM fun m => (Text.decode m.1).map fun key => (String.ofList key, m.2)
  | _ => none

/-- The only value under a name, or nothing; two values are refused. -/
def unique? (members : List (String × Json)) (name : String) : Option (Option Json) :=
  match members.filter fun m => m.1 = name with
  | [] => some none
  | [m] => some (some m.2)
  | _ => none

/-- The fields of a record. An array may leave out the last ones down to a least number. -/
def fields? (names : List String) (least : Nat) (j : Json) : Option (List (Option Json)) :=
  match j with
  | .arr items =>
    if least ≤ items.length ∧ items.length ≤ names.length then
      some (items.map some ++ List.replicate (names.length - items.length) none)
    else none
  | .obj _ => j.members?.bind fun members => names.mapM (unique? members)
  | _ => none

def choice? : Json → Option String
  | .obj [(key, .null)] => (Text.decode key).map String.ofList
  | j => j.text?

end DemandResponse.Json
