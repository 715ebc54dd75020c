import DemandResponse.Decimal.Binary

/-!
# Numerals

A JSON number is kept as it was written: sign, digits before and behind the point, exponent. An
integer is a numeral without point and exponent, except that a negative zero is none. A numeral
taken for a decimal is exact if it is an integer of 64 bits, and otherwise goes through the
nearest binary number and its shortest text. On the way to the binary number only as many digits
count as a significand of 64 bits can hold.
-/

namespace DemandResponse.Json

/-- A number as it was written. -/
structure Numeral where
  negative : Bool
  whole : List Nat
  /-- The digits behind the point; none if there is no point. -/
  fraction : List Nat
  /-- Whether the exponent is negative, and its digits. -/
  exponent : Option (Bool × List Nat)
  deriving DecidableEq, Repr

namespace Numeral

def takeDigits : List Char → List Nat × List Char
  | [] => ([], [])
  | c :: rest =>
    match Digits.ofChar? c with
    | some d =>
      let (digits, rest) := takeDigits rest
      (d :: digits, rest)
    | none => ([], c :: rest)

/-- Digits before the point: at least one, and no leading zero. -/
def validWhole : List Nat → Bool
  | [] => false
  | [_] => true
  | d :: _ => d != 0

def readExponent? (text : List Char) : Option (Bool × List Nat) :=
  let (negative, text) :=
    match text with
    | '-' :: rest => (true, rest)
    | '+' :: rest => (false, rest)
    | _ => (false, text)
  match takeDigits text with
  | (d :: digits, []) => some (negative, d :: digits)
  | _ => none

def readTail? (negative : Bool) (whole fraction : List Nat) : List Char → Option Numeral
  | [] => some ⟨negative, whole, fraction, none⟩
  | c :: rest =>
    if c = 'e' ∨ c = 'E' then
      (readExponent? rest).map fun exponent => ⟨negative, whole, fraction, some exponent⟩
    else none

def readUnsigned? (negative : Bool) (text : List Char) : Option Numeral :=
  let (whole, rest) := takeDigits text
  if validWhole whole then
    match rest with
    | '.' :: rest =>
      match takeDigits rest with
      | ([], _) => none
      | (fraction, rest) => readTail? negative whole fraction rest
    | _ => readTail? negative whole [] rest
  else none

def read? : List Char → Option Numeral
  | '-' :: rest => readUnsigned? true rest
  | text => readUnsigned? false text

def isMark (c : Char) : Bool :=
  (Digits.ofChar? c).isSome || c == '-' || c == '+' || c == '.' || c == 'e' || c == 'E'

def ofInt (n : Int) : Numeral := ⟨decide (n < 0), Digits.ofNat n.natAbs, [], none⟩

def chars (n : Numeral) : List Char :=
  let fraction := if n.fraction.isEmpty then [] else '.' :: n.fraction.map Digits.char
  let exponent :=
    match n.exponent with
    | none => []
    | some (negative, digits) =>
      'e' :: (if negative then ['-'] else []) ++ digits.map Digits.char
  (if n.negative then ['-'] else []) ++ n.whole.map Digits.char ++ fraction ++ exponent

def int? (n : Numeral) : Option Int :=
  let value := Digits.toNat n.whole
  if n.fraction.isEmpty ∧ n.exponent.isNone ∧ ¬ (n.negative ∧ value = 0) then
    some (if n.negative then -(value : Int) else value)
  else none

/-- The bound of a significand, 2^64. -/
def significandLimit : Nat := 0x10000000000000000

/-- Take up digits before the point; each one left out raises the exponent. -/
def takeWhole (significand : Nat) : List Nat → Nat × Int
  | [] => (significand, 0)
  | d :: rest =>
    if 10 * significand + d < significandLimit then takeWhole (10 * significand + d) rest
    else (significand, rest.length + 1)

/-- Take up digits behind the point; each one taken lowers the exponent. -/
def takeFraction (significand : Nat) (exponent : Int) : List Nat → Nat × Int
  | [] => (significand, exponent)
  | d :: rest =>
    if 10 * significand + d < significandLimit then
      takeFraction (10 * significand + d) (exponent - 1) rest
    else (significand, exponent)

/-- The bound of a written exponent, 2^31. -/
def exponentLimit : Nat := 0x80000000

/-- The size of the binary number that a numeral denotes, if it is finite. -/
def binary? (n : Numeral) : Option Binary :=
  let (significand, exponent) := takeWhole 0 n.whole
  let (significand, exponent) := takeFraction significand exponent n.fraction
  let scaled (e : Int) := (Binary.ofRat? significand).bind (·.scale e)
  match n.exponent with
  | none => scaled exponent
  | some (negative, digits) =>
    let written := Digits.toNat digits
    if written < exponentLimit then
      scaled (if negative then exponent - written else exponent + written)
    else if significand ≠ 0 ∧ negative = false then none
    else some ⟨0, Binary.minExponent⟩

/-- The least integer that is taken exactly, -2^63; the greatest is below `significandLimit`. -/
def leastExact : Int := -0x8000000000000000

def decimal? (n : Numeral) : Option Decimal :=
  let approximate := n.binary?.bind fun size =>
    Decimal.read? ((if n.negative then ['-'] else []) ++ size.chars)
  match n.int? with
  | some value =>
    if leastExact ≤ value ∧ value < significandLimit then Decimal.ofParts? value 0
    else approximate
  | none => approximate

end Numeral

end DemandResponse.Json
