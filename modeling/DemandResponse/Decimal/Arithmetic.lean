import DemandResponse.Decimal.Basic

/-!
# Decimal arithmetic

Each operation computes exactly over the integers and then fits the result. A sum with zero is
the other operand as it stands, and a product with zero is zero without places. A product that
is rounded to zero keeps its sign, unless both coefficients are short. A result that fits
nowhere is `none`.
-/

namespace DemandResponse.Decimal

def neg (d : Decimal) : Decimal := { d with negative := !d.negative }

def abs (d : Decimal) : Decimal := { d with negative := false }

/-- The mantissa of a decimal at a scale that is not below its own. -/
def mantissaAt (d : Decimal) (scale : Nat) : Int := d.mantissa * Digits.tenTo (scale - d.scale)

/-- The decimal of an exact mantissa at a scale. -/
def fitMantissa (mantissa : Int) (scale : Nat) : Option Decimal :=
  fit (decide (mantissa < 0)) mantissa.natAbs scale

def add (a b : Decimal) : Option Decimal :=
  if a.isZero then some b
  else if b.isZero then some a
  else
    let scale := max a.scale b.scale
    fitMantissa (a.mantissaAt scale + b.mantissaAt scale) scale

def sub (a b : Decimal) : Option Decimal :=
  if a.isZero then some b.neg
  else if b.isZero then some a
  else
    let scale := max a.scale b.scale
    fitMantissa (a.mantissaAt scale - b.mantissaAt scale) scale

/-- The bound of a short coefficient, 2^32. -/
def short : Nat := 0x100000000

/-- A product of two short coefficients that lies more than 19 digits beyond the last place is
zero without places. -/
def mul (a b : Decimal) : Option Decimal :=
  if a.isZero ∨ b.isZero then some 0
  else
    let negative := a.negative != b.negative
    let product := fit negative (a.coefficient * b.coefficient) (a.scale + b.scale)
    if a.coefficient < short ∧ b.coefficient < short then
      if places + 19 < a.scale + b.scale then some 0 else product.map clearZero
    else product

/-- A quotient of integers with the most places among those up to a bound. -/
def quotientAt (a b : Int) : (bound : Nat) → Option Decimal
  | 0 => ofParts? ((a.sign * b.sign) * halfEven a.natAbs b.natAbs) 0
  | t + 1 =>
    let size := halfEven (a.natAbs * Digits.tenTo (t + 1)) b.natAbs
    match ofParts? ((a.sign * b.sign) * size) (t + 1) with
    | some d => some d
    | none => quotientAt a b t

/-- A quotient of integers, rounded half to even at the most places that it allows. -/
def quotient (a b : Int) : Option Decimal := quotientAt a b places

def floor (d : Decimal) : Int := d.mantissa / Digits.tenTo d.scale

/-- A coefficient without its last zeros, as far as they stand behind the point. -/
def strip (coefficient : Nat) : (scale : Nat) → Nat × Nat
  | 0 => (coefficient, 0)
  | s + 1 => if coefficient % 10 = 0 then strip (coefficient / 10) s else (coefficient, s + 1)

theorem strip_bounds (coefficient s : Nat) :
    (strip coefficient s).1 ≤ coefficient ∧ (strip coefficient s).2 ≤ s := by
  induction s generalizing coefficient with
  | zero => exact ⟨Nat.le_refl _, Nat.le_refl _⟩
  | succ s ih =>
    rw [strip]
    split
    · have h := ih (coefficient / 10)
      omega
    · exact ⟨Nat.le_refl _, Nat.le_refl _⟩

/-- The same value with the fewest places; zero loses its sign. -/
def normalize (d : Decimal) : Decimal :=
  clearZero
    { negative := d.negative
      coefficient := (strip d.coefficient d.scale).1
      scale := (strip d.coefficient d.scale).2
      coefficient_lt :=
        Nat.lt_of_le_of_lt (strip_bounds d.coefficient d.scale).1 d.coefficient_lt
      scale_le := Nat.le_trans (strip_bounds d.coefficient d.scale).2 d.scale_le }

end DemandResponse.Decimal
