import DemandResponse.Json.Numeral
import DemandResponse.Json.Text

/-!
# JSON values

A value keeps all that was written except blanks: numbers as numerals, strings as pieces, the
members of an object in order and with repetitions. Writing adds no blanks.
-/

namespace DemandResponse

inductive Json where
  | null
  | bool (b : Bool)
  | num (n : Json.Numeral)
  | str (text : Json.Text)
  | arr (items : List Json)
  | obj (members : List (Json.Text × Json))

namespace Json

/-- The characters of a value, of the items of an array, and of the members of an object. -/
def chars : Json → List Char
  | .null => "null".toList
  | .bool b => (if b then "true" else "false").toList
  | .num n => n.chars
  | .str text => Text.chars text
  | .arr items => '[' :: itemChars items ++ [']']
  | .obj members => '{' :: memberChars members ++ ['}']
where
  itemChars : List Json → List Char
    | [] => []
    | [item] => chars item
    | item :: rest => chars item ++ ',' :: itemChars rest
  memberChars : List (Text × Json) → List Char
    | [] => []
    | [(key, value)] => Text.chars key ++ ':' :: chars value
    | (key, value) :: rest => Text.chars key ++ ':' :: chars value ++ ',' :: memberChars rest

def render (j : Json) : String := String.ofList j.chars

def text (s : String) : Json := .str (Text.ofChars s.toList)

def int (n : Int) : Json := .num (.ofInt n)

def object (members : List (String × Json)) : Json :=
  .obj (members.map fun m => (Text.ofChars m.1.toList, m.2))

end Json

end DemandResponse
