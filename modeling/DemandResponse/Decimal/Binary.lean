import DemandResponse.Decimal.Text

/-!
# Binary floating-point numbers

A non-negative binary number has a significand below 2^53 over a power of two. Rounding to it is
to nearest, half to even. Its shortest text is found on the coarsest decimal grid that has a
point among the numbers that round to it, ends included for an even significand; of two such
points the nearer is taken and of equally near ones the greater. The text never has an exponent.
-/

namespace DemandResponse

/-- The number `significand * 2 ^ exponent`. -/
structure Binary where
  significand : Nat
  exponent : Int
  deriving DecidableEq

namespace Binary

/-- The least exponent, that of the numbers next to zero. -/
def minExponent : Int := -1074

def maxExponent : Int := 971

def power (base : Nat) (e : Int) : Rat :=
  if 0 ≤ e then (base.pow e.toNat : Nat) else 1 / (base.pow (-e).toNat : Nat)

/-- The least significand of full length, 2^52. -/
def fullLength : Nat := 0x10000000000000

def value (b : Binary) : Rat := b.significand * power 2 b.exponent

/-- The greatest exponent of a power of two that is not above a positive number. -/
def log2 (x : Rat) : Int :=
  let e : Int := (x.num.natAbs.log2 : Int) - (x.den.log2 : Int)
  if power 2 e ≤ x then e else e - 1

def nearest (x : Rat) : Nat := Decimal.halfEven x.num.natAbs x.den

/-- The binary number nearest to a non-negative number, if that is finite. -/
def ofRat? (x : Rat) : Option Binary :=
  if x = 0 then some ⟨0, minExponent⟩
  else
    let e := max (log2 x - 52) minExponent
    let m := nearest (x / power 2 e)
    let b : Binary := if m = 2 * fullLength then ⟨fullLength, e + 1⟩ else ⟨m, e⟩
    if b.exponent ≤ maxExponent then some b else none

def powerOfTen? (k : Nat) : Option Binary := ofRat? (Digits.tenTo k)

/-- The exponent of the greatest finite power of ten. -/
def maxPower : Nat := 308

def timesPower (b : Binary) (k : Nat) : Option Binary :=
  (powerOfTen? k).bind fun p => ofRat? (b.value * p.value)

def overPower (b : Binary) (k : Nat) : Option Binary :=
  (powerOfTen? k).bind fun p => ofRat? (b.value / p.value)

/-- Repeated quotients by the greatest power of ten; zero stays. -/
def shrink (b : Binary) : (steps : Nat) → Option Binary
  | 0 => some b
  | n + 1 => if b.significand = 0 then some b else (b.overPower maxPower).bind (shrink · n)

/-- The rounded product with `10 ^ k`. A power of ten below the least finite one is divided by in
steps, each of which rounds; above the greatest one only zero has a product. -/
def scale (b : Binary) (k : Int) : Option Binary :=
  if 0 ≤ k then
    if k.toNat ≤ maxPower then b.timesPower k.toNat
    else if b.significand = 0 then some b
    else none
  else
    let steps := ((-k).toNat - 1) / maxPower
    (b.shrink steps).bind (·.overPower ((-k).toNat - steps * maxPower))

/-- The lower end of the numbers that round to a binary number. The step below a power of two is
half as wide as the step above it. -/
def lowerEnd (b : Binary) : Rat :=
  let unit := power 2 b.exponent
  if b.significand = fullLength ∧ minExponent < b.exponent then b.value - unit / 4
  else b.value - unit / 2

def upperEnd (b : Binary) : Rat := b.value + power 2 b.exponent / 2

def Covers (b : Binary) (x : Rat) : Prop :=
  if b.significand % 2 = 0 then b.lowerEnd ≤ x ∧ x ≤ b.upperEnd
  else b.lowerEnd < x ∧ x < b.upperEnd

instance (b : Binary) (x : Rat) : Decidable (b.Covers x) := by
  unfold Covers
  infer_instance

/-- The point of the grid of multiples of `10 ^ k` that is chosen for a binary number. -/
def onGrid (b : Binary) (k : Int) : Option Nat :=
  let unit := power 10 k
  let below := (b.value / unit).floor.toNat
  let lower := unit * below
  let upper := unit * (below + 1)
  if b.Covers lower then
    if b.Covers upper ∧ upper - b.value ≤ b.value - lower then some (below + 1) else some below
  else if b.Covers upper then some (below + 1)
  else none

/-- The exponents of the grids on which a text may lie, the coarsest first. -/
def grids : List Int := (List.range 640).map fun (i : Nat) => 310 - (i : Int)

/-- The shortest digits of a positive number, and the exponent of the last. -/
def shortest (b : Binary) : Nat × Int :=
  (grids.findSome? fun k => (b.onGrid k).map fun n => (n, k)).getD (0, 0)

def positional (n : Nat) (k : Int) : List Char :=
  if 0 ≤ k then Digits.chars (n * Digits.tenTo k.toNat)
  else
    let (m, places) := Decimal.strip n (-k).toNat
    let digits := Digits.padded (places + 1) m
    digits.take (digits.length - places) ++
      (if places = 0 then [] else '.' :: digits.drop (digits.length - places))

/-- The shortest text that reads back as a binary number. -/
def chars (b : Binary) : List Char :=
  if b.significand = 0 then ['0'] else positional b.shortest.1 b.shortest.2

end Binary

end DemandResponse
