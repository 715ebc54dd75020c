import DemandResponse.Json.Basic

/-!
# JSON tokens

A text is cut into brackets, separators, words, numerals and strings; blanks between them are
dropped. A numeral is as long as its characters allow.
-/

namespace DemandResponse.Json

inductive Token where
  | openArray
  | closeArray
  | openObject
  | closeObject
  | comma
  | colon
  | null
  | bool (b : Bool)
  | num (n : Numeral)
  | str (text : Text)
  deriving DecidableEq, Repr

namespace Token

def isBlank (c : Char) : Bool := c == ' ' || c == '\t' || c == '\n' || c == '\r'

def numeral? (text : List Char) : Option (Token × List Char) :=
  (Numeral.read? (text.takeWhile Numeral.isMark)).map fun n =>
    (.num n, text.dropWhile Numeral.isMark)

/-- The token at the head of a text, and what follows it. -/
def next? : List Char → Option (Token × List Char)
  | '[' :: rest => some (.openArray, rest)
  | ']' :: rest => some (.closeArray, rest)
  | '{' :: rest => some (.openObject, rest)
  | '}' :: rest => some (.closeObject, rest)
  | ',' :: rest => some (.comma, rest)
  | ':' :: rest => some (.colon, rest)
  | '"' :: rest => (Text.scan rest).map fun (text, rest) => (.str text, rest)
  | 'n' :: 'u' :: 'l' :: 'l' :: rest => some (.null, rest)
  | 't' :: 'r' :: 'u' :: 'e' :: rest => some (.bool true, rest)
  | 'f' :: 'a' :: 'l' :: 's' :: 'e' :: rest => some (.bool false, rest)
  | text => numeral? text

theorem read?_nil : Numeral.read? [] = none := rfl

/-- A numeral takes up at least one character. -/
theorem length_of_numeral? {text rest : List Char} {token : Token}
    (h : numeral? text = some (token, rest)) : rest.length < text.length := by
  obtain ⟨n, hn, he⟩ := Option.map_eq_some_iff.1 h
  obtain rfl := (Prod.mk.inj he).2
  have hsplit := congrArg List.length
    (List.takeWhile_append_dropWhile (p := Numeral.isMark) (l := text))
  rw [List.length_append] at hsplit
  have hpos : 0 < (text.takeWhile Numeral.isMark).length := by
    rw [List.length_pos_iff]
    intro hnil
    rw [hnil, read?_nil] at hn
    cases hn
  omega

/-- A token takes up at least one character. -/
theorem length_of_next? {text rest : List Char} {token : Token}
    (h : next? text = some (token, rest)) : rest.length < text.length := by
  unfold next? at h
  split at h
  case h_7 =>
    obtain ⟨⟨t, r⟩, ht, he⟩ := Option.map_eq_some_iff.1 h
    obtain rfl := (Prod.mk.inj he).2
    have := Text.length_of_scan ht
    simp only [List.length_cons]
    omega
  case h_11 => exact length_of_numeral? h
  all_goals
    cases h
    simp only [List.length_cons]
    omega

def scan (text : List Char) : Option (List Token) :=
  match text with
  | [] => some []
  | c :: rest =>
    if isBlank c then scan rest
    else
      match h : next? (c :: rest) with
      | none => none
      | some (token, rest') =>
        have : rest'.length < (c :: rest).length := length_of_next? h
        (scan rest').map (token :: ·)
termination_by text.length
decreasing_by
  · exact Nat.lt_succ_self _
  · assumption

end Token

end DemandResponse.Json
