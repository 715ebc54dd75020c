import DemandResponse.Digits

/-!
# Decimals

A decimal is a sign and a coefficient below 2^96 over a power of ten of at most 28 places. The
number of places is part of it: 1.5 and 1.50 differ as decimals but not in value, and so do the
two zeros of one scale, of which the negative one comes from rounding alone. Order and `same`
look at the value. An exact result that does not fit is brought to the largest number of places
at which its coefficient, rounded half to even, is small enough; if there is none, it has no
decimal at all.
-/

namespace DemandResponse

/-- The bound of a coefficient, 2^96. -/
def Decimal.limit : Nat := 0x1000000000000000000000000

def Decimal.places : Nat := 28

/-- A signed coefficient and the number of its digits behind the point. -/
structure Decimal where
  negative : Bool
  coefficient : Nat
  scale : Nat
  coefficient_lt : coefficient < Decimal.limit
  scale_le : scale ≤ Decimal.places
  deriving DecidableEq

namespace Decimal

def mantissa (d : Decimal) : Int := if d.negative then -(d.coefficient : Int) else d.coefficient

def value (d : Decimal) : Rat := d.mantissa / Digits.tenTo d.scale

/-- A sign with a coefficient at a scale, if these are in bounds. -/
def build? (negative : Bool) (coefficient scale : Nat) : Option Decimal :=
  if h : coefficient < limit ∧ scale ≤ places then
    some ⟨negative, coefficient, scale, h.1, h.2⟩
  else none

def ofParts? (mantissa : Int) (scale : Nat) : Option Decimal :=
  build? (decide (mantissa < 0)) mantissa.natAbs scale

def ofInt64 (n : Int64) : Decimal where
  negative := decide (n.toInt < 0)
  coefficient := n.toInt.natAbs
  scale := 0
  coefficient_lt := by
    have hlo := Int64.le_toInt n
    have hhi := Int64.toInt_lt n
    simp only [limit]
    omega
  scale_le := by decide

instance : OfNat Decimal 0 := ⟨false, 0, 0, by decide, by decide⟩

instance : OfNat Decimal 1 := ⟨false, 1, 0, by decide, by decide⟩

def half : Decimal := ⟨false, 5, 1, by decide, by decide⟩

def isZero (d : Decimal) : Bool := d.coefficient == 0

/-- The same decimal, except that zero loses its sign. -/
def clearZero (d : Decimal) : Decimal := { d with negative := d.negative && !d.isZero }

/-- The numerator of the first decimal over the product of both denominators. -/
def across (a b : Decimal) : Int := a.mantissa * Digits.tenTo b.scale

instance : LT Decimal := ⟨fun a b => a.across b < b.across a⟩

instance : LE Decimal := ⟨fun a b => a.across b ≤ b.across a⟩

instance (a b : Decimal) : Decidable (a < b) :=
  inferInstanceAs (Decidable (a.across b < b.across a))

instance (a b : Decimal) : Decidable (a ≤ b) :=
  inferInstanceAs (Decidable (a.across b ≤ b.across a))

def same (a b : Decimal) : Bool := a.across b == b.across a

/-- The integer nearest to a quotient; halfway between two, the even one. -/
def halfEven (n d : Nat) : Nat :=
  if d < 2 * (n % d) ∨ 2 * (n % d) = d ∧ n / d % 2 = 1 then n / d + 1 else n / d

/-- The integer nearest to a quotient; halfway between two, the greater one. -/
def halfUp (n d : Nat) : Nat := if d ≤ 2 * (n % d) then n / d + 1 else n / d

/-- A coefficient without its last digits, rounded half to even. -/
def drop (coefficient digits : Nat) : Nat := halfEven coefficient (Digits.tenTo digits)

/-- The decimal of `coefficient / 10 ^ s` with the most places among those up to a bound. -/
def fitAt (negative : Bool) (coefficient s : Nat) : (bound : Nat) → Option Decimal
  | 0 => build? negative (drop coefficient s) 0
  | t + 1 =>
    match build? negative (drop coefficient (s - (t + 1))) (t + 1) with
    | some d => some d
    | none => fitAt negative coefficient s t

/-- The decimal of an exact result `coefficient / 10 ^ s`, with no more places than it has. -/
def fit (negative : Bool) (coefficient s : Nat) : Option Decimal :=
  fitAt negative coefficient s (min s places)

theorem build?_self (d : Decimal) : build? d.negative d.coefficient d.scale = some d := by
  simp [build?, d.coefficient_lt, d.scale_le]

theorem natAbs_mantissa (d : Decimal) : d.mantissa.natAbs = d.coefficient := by
  unfold mantissa
  split <;> omega

theorem mantissa_clearZero (d : Decimal) : d.clearZero.mantissa = d.mantissa := by
  unfold clearZero mantissa isZero
  cases d.negative
  · rfl
  · by_cases h : d.coefficient = 0 <;> simp [h]

end Decimal

end DemandResponse
