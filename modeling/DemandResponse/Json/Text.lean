/-!
# Quoted text

The inside of a JSON string is read into pieces: characters, and halves of surrogate pairs, which
only an escape can write. Any sequence of pieces is well-formed as a string; it denotes a text
only if every half stands in a pair. Text is written with the short escapes where there are any,
with a four-digit escape for the other control characters, and as it is otherwise.
-/

namespace DemandResponse.Json

/-- One character of a string, or one half of one. -/
inductive Piece where
  | char (c : Char)
  /-- A code unit from the surrogate range. -/
  | half (unit : Nat)
  deriving DecidableEq, Repr

abbrev Text := List Piece

namespace Text

def hexDigit? (c : Char) : Option Nat :=
  if '0' ≤ c ∧ c ≤ '9' then some (c.toNat - 48)
  else if 'a' ≤ c ∧ c ≤ 'f' then some (c.toNat - 87)
  else if 'A' ≤ c ∧ c ≤ 'F' then some (c.toNat - 55)
  else none

def unit? (a b c d : Char) : Option Nat := do
  let a ← hexDigit? a
  let b ← hexDigit? b
  let c ← hexDigit? c
  let d ← hexDigit? d
  return ((a * 16 + b) * 16 + c) * 16 + d

def isHigh (unit : Nat) : Bool := 0xD800 ≤ unit && unit < 0xDC00

def isLow (unit : Nat) : Bool := 0xDC00 ≤ unit && unit < 0xE000

def pieceOf (unit : Nat) : Piece :=
  if isHigh unit || isLow unit then .half unit else .char (Char.ofNat unit)

def unescape? : Char → Option Char
  | '"' => some '"'
  | '\\' => some '\\'
  | '/' => some '/'
  | 'b' => some '\x08'
  | 'f' => some '\x0c'
  | 'n' => some '\n'
  | 'r' => some '\r'
  | 't' => some '\t'
  | _ => none

/-- Read up to the closing quote: the text, and what follows the quote. -/
def scan : List Char → Option (Text × List Char)
  | [] => none
  | '"' :: rest => some ([], rest)
  | '\\' :: 'u' :: a :: b :: c :: d :: rest =>
    match unit? a b c d, scan rest with
    | some unit, some (text, rest) => some (pieceOf unit :: text, rest)
    | _, _ => none
  | '\\' :: c :: rest =>
    match unescape? c, scan rest with
    | some c, some (text, rest) => some (.char c :: text, rest)
    | _, _ => none
  | c :: rest =>
    if c < ' ' then none
    else
      match scan rest with
      | some (text, rest) => some (.char c :: text, rest)
      | none => none

/-- What follows a string is shorter than what it was read from. -/
theorem length_of_scan {cs rest : List Char} {text : Text} (h : scan cs = some (text, rest)) :
    rest.length < cs.length := by
  fun_induction scan cs generalizing text rest with
  | case1 => cases h
  | case2 => cases h; exact Nat.lt_succ_self _
  | case3 a b c d r unit text' rest' hs hu ih =>
    cases h
    have := ih hs
    simp only [List.length_cons]
    omega
  | case4 => cases h
  | case5 c r hne c' text' rest' hs hu ih =>
    cases h
    have := ih hs
    simp only [List.length_cons]
    omega
  | case6 => cases h
  | case7 => cases h
  | case8 c r h1 h2 h3 hc text' rest' hs ih =>
    cases h
    have := ih hs
    simp only [List.length_cons]
    omega
  | case9 => cases h

/-- The text as characters, if every half is paired. -/
def decode : Text → Option (List Char)
  | [] => some []
  | .char c :: rest => (decode rest).map (c :: ·)
  | .half high :: .half low :: rest =>
    if isHigh high && isLow low then
      (decode rest).map (Char.ofNat (0x10000 + (high - 0xD800) * 0x400 + (low - 0xDC00)) :: ·)
    else none
  | .half _ :: _ => none

def ofChars (cs : List Char) : Text := cs.map .char

theorem decode_ofChars (cs : List Char) : decode (ofChars cs) = some cs := by
  induction cs with
  | nil => rfl
  | cons c cs ih =>
    rw [ofChars] at ih
    rw [ofChars, List.map_cons, decode, ih]
    rfl

def hexChar (d : Nat) : Char := if d < 10 then Char.ofNat (48 + d) else Char.ofNat (87 + d)

def escapeUnit (unit : Nat) : List Char :=
  ['\\', 'u', hexChar (unit / 4096 % 16), hexChar (unit / 256 % 16), hexChar (unit / 16 % 16),
    hexChar (unit % 16)]

def escape (c : Char) : List Char :=
  if c = '"' then ['\\', '"']
  else if c = '\\' then ['\\', '\\']
  else if c = '\x08' then ['\\', 'b']
  else if c = '\x0c' then ['\\', 'f']
  else if c = '\n' then ['\\', 'n']
  else if c = '\r' then ['\\', 'r']
  else if c = '\t' then ['\\', 't']
  else if c < ' ' then escapeUnit c.toNat
  else [c]

def pieceChars : Piece → List Char
  | .char c => escape c
  | .half unit => escapeUnit unit

def chars (text : Text) : List Char := '"' :: text.flatMap pieceChars ++ ['"']

end Text

end DemandResponse.Json
