import DemandResponse.Fault

/-!
# Random draws

A generator gives random bits and random numbers, each from a state that the one before has left.
The first state comes from a seed. Draws pass the states on from one to the next, and a draw from
a range without members ends with a fault.
-/

namespace DemandResponse.Random

/-- How many bits the integers of a range have. -/
inductive Width where
  | short
  | long

def Width.size : Width → Nat
  | .short => 0x100000000
  | .long => 0x10000000000000000

/-- A source of random values that has states of type `ρ`. -/
structure Generator (ρ : Type) where
  ofSeed : UInt64 → ρ
  coin : ρ → Bool × ρ
  /-- An integer from a range, of which the least and the greatest member are given. -/
  between : Width → (low high : Int) → ρ → Int × ρ

/-- A computation that draws from a generator. -/
abbrev Draw (ρ : Type) := StateT ρ (Except Fault)

namespace Generator

variable {ρ : Type}

def flip (g : Generator ρ) : Draw ρ Bool := fun r => .ok (g.coin r)

/-- An integer from `low` to `high`, both included. -/
def pick (g : Generator ρ) (width : Width) (low high : Int) : Draw ρ Int := fun r =>
  if high < low then .error .emptyRange else .ok (g.between width low high r)

end Generator

end DemandResponse.Random
