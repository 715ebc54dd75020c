import DemandResponse.Decimal.Arithmetic

/-!
# Decimals as text

Writing shows the sign and every place of a decimal. Reading takes a sign, digits with at most
one point among them, and underscores behind the first digit; a zero that is read has no sign.
Behind the point, the first digit beyond the 28th place or beyond the bound of the coefficient
rounds half up, and the digits after it do not count. An underscore directly behind the 28th
place counts as that digit, and as zero, except where the coefficient is long.

The scientific form shifts the point by a written exponent of at most 28. A shift to the left
that leads beyond the 28th place rounds half up and keeps the sign, also of zero.
-/

namespace DemandResponse.Decimal

def chars (d : Decimal) : List Char :=
  let digits := Digits.padded (d.scale + 1) d.coefficient
  let whole := digits.take (digits.length - d.scale)
  let fraction := digits.drop (digits.length - d.scale)
  (if d.negative then ['-'] else []) ++ whole ++ (if d.scale = 0 then [] else '.' :: fraction)

def text (d : Decimal) : String := String.ofList d.chars

/-- What a text has amounted to so far. -/
structure Reading where
  coefficient : Nat
  scale : Nat
  point : Bool
  started : Bool

namespace Reading

def blank : Reading := ⟨0, 0, false, false⟩

/-- The least long prefix of a coefficient. It is somewhat below a tenth of 2^64, so that a
prefix that is not long can take up another digit within 64 bits. -/
def longFrom : Nat := 1844674407370954906

/-- The coefficient was long before its last digit. -/
def isLong (r : Reading) : Bool := longFrom ≤ r.coefficient / 10

def finish (negative : Bool) (r : Reading) : Option Decimal :=
  if r.started then (build? negative r.coefficient r.scale).map clearZero else none

/-- The digit at which a reading is rounded. -/
def roundingDigit? (c : Char) : Option Nat := if c = '_' then some 0 else Digits.ofChar? c

/-- End the reading at a digit in excess. A coefficient that rounding makes too long gives up
one place more. -/
def round (negative : Bool) (r : Reading) (digit : Nat) : Option Decimal :=
  if digit < 5 then r.finish negative
  else if r.coefficient + 1 < limit then
    { r with coefficient := r.coefficient + 1 }.finish negative
  else if r.scale = 0 then none
  else { r with coefficient := (r.coefficient + 5) / 10, scale := r.scale - 1 }.finish negative

/-- End the reading at a character in excess. All that may follow is digits and underscores. -/
def excess (negative : Bool) (r : Reading) (c : Char) (rest : List Char) : Option Decimal :=
  if rest.all fun c => (roundingDigit? c).isSome then (roundingDigit? c).bind (r.round negative)
  else none

def run (negative : Bool) (r : Reading) : List Char → Option Decimal
  | [] => r.finish negative
  | c :: rest =>
    if r.point ∧ places ≤ r.scale then
      if c = '_' ∧ r.isLong then run negative r rest else r.excess negative c rest
    else
      match Digits.ofChar? c with
      | some d =>
        if 10 * r.coefficient + d < limit then
          run negative
            ⟨10 * r.coefficient + d, if r.point then r.scale + 1 else 0, r.point, true⟩ rest
        else if r.point then r.excess negative c rest
        else none
      | none =>
        if c = '.' ∧ r.point = false then run negative { r with point := true } rest
        else if c = '_' ∧ r.started then run negative r rest
        else none

end Reading

def read? : List Char → Option Decimal
  | '-' :: rest => Reading.blank.run true rest
  | '+' :: rest => Reading.blank.run false rest
  | text => Reading.blank.run false text

def readExponent? : List Char → Option Nat
  | '+' :: rest => Digits.read? rest
  | text => Digits.read? text

/-- Shift the point to the left by adding places, up to the last one there is. -/
def lower (d : Decimal) (e : Nat) : Option Decimal :=
  if places < e then none
  else if d.scale + e ≤ places then build? d.negative d.coefficient (d.scale + e)
  else build? d.negative (halfUp d.coefficient (Digits.tenTo (d.scale + e - places))) places

/-- Shift the point to the right, first through the places that there are. -/
def raise (d : Decimal) (e : Nat) : Option Decimal :=
  if e ≤ d.scale then build? d.negative d.coefficient (d.scale - e)
  else if e ≤ places then
    ((build? false (Digits.tenTo e) 0).bind d.mul).map normalize
  else none

def isExponentMark (c : Char) : Bool := c == 'e' || c == 'E'

def readScientific? (text : List Char) : Option Decimal :=
  match text.dropWhile (!isExponentMark ·) with
  | [] => none
  | _ :: exponent =>
    (read? (text.takeWhile (!isExponentMark ·))).bind fun d =>
      match exponent with
      | '-' :: rest => (readExponent? rest).bind d.lower
      | _ => (readExponent? exponent).bind d.raise

def readAny? (text : List Char) : Option Decimal :=
  match read? text with
  | some d => some d
  | none => readScientific? text

end DemandResponse.Decimal
