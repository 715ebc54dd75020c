import DemandResponse.Fault

/-!
# Power values

Powers, targets and imbalances are whole kilowatts in 64 signed bits; upward is positive. All
arithmetic on them is integer arithmetic followed by one of two ways back into the range: `clamp`
takes the nearest value, `ofInt?` accepts only a value that is already there. Neither wraps.
-/

namespace DemandResponse

/-- A signed amount of power in kilowatts. -/
abbrev Power := Int64

/-- The number of a time step. -/
abbrev Tick := UInt64

namespace Power

def least : Int := -0x8000000000000000

def greatest : Int := 0x7fffffffffffffff

def InRange (x : Int) : Prop := least ≤ x ∧ x ≤ greatest

instance (x : Int) : Decidable (InRange x) := inferInstanceAs (Decidable (_ ∧ _))

/-- The representable value nearest to an integer. -/
def clamp (x : Int) : Power := Int64.ofIntClamp x

def ofInt? (x : Int) : Option Power :=
  if InRange x then some (Int64.ofInt x) else none

/-- Addition that stops at the ends of the range. -/
def addClamped (a b : Power) : Power := clamp (a.toInt + b.toInt)

def subClamped (a b : Power) : Power := clamp (a.toInt - b.toInt)

/-- Addition that faults outside the range. -/
def add (a b : Power) : Except Fault Power :=
  Fault.sumOverflow.ifNone (ofInt? (a.toInt + b.toInt))

def negate (a : Power) : Except Fault Power :=
  Fault.negationOverflow.ifNone (ofInt? (-a.toInt))

/-- The distance of two values, which no overflow can disturb. -/
def distance (a b : Power) : Nat := (a.toInt - b.toInt).natAbs

theorem inRange_toInt (p : Power) : InRange p.toInt :=
  ⟨Int64.le_toInt p, Int64.toInt_le p⟩

theorem ofInt?_eq_some_iff {x : Int} {p : Power} : ofInt? x = some p ↔ p.toInt = x := by
  unfold ofInt?
  split
  · next h =>
    rw [Option.some.injEq, ← Int64.toInt_inj,
      Int64.toInt_ofInt_of_le h.1 (Int.lt_add_one_of_le h.2)]
    exact eq_comm
  · next h =>
    constructor
    · intro hn; cases hn
    · intro hp; exact absurd (hp ▸ inRange_toInt p) h

theorem ofInt?_toInt (p : Power) : ofInt? p.toInt = some p := ofInt?_eq_some_iff.2 rfl

/-- A value in range is its own nearest representable value. -/
theorem toInt_clamp {x : Int} (h : InRange x) : (clamp x).toInt = x :=
  Int64.toInt_ofIntClamp (by rw [Int64.toInt_minValue]; exact h.1)
    (by rw [Int64.toInt_maxValue]; exact h.2)

/-- A value beyond an end of the range is brought to that end. -/
theorem toInt_clamp_eq (x : Int) : (clamp x).toInt = max least (min x greatest) := by
  by_cases hlo : least ≤ x
  · by_cases hhi : x ≤ greatest
    · rw [toInt_clamp ⟨hlo, hhi⟩]
      omega
    · have hmax : clamp x = Int64.maxValue := by
        rw [clamp, Int64.ofIntClamp, dif_pos (by rwa [Int64.toInt_minValue]),
          dif_neg (by rwa [Int64.toInt_maxValue])]
      rw [hmax, Int64.toInt_maxValue]
      unfold least greatest at *
      omega
  · have hmin : clamp x = Int64.minValue := by
      rw [clamp, Int64.ofIntClamp, dif_neg (by rwa [Int64.toInt_minValue])]
    rw [hmin, Int64.toInt_minValue]
    unfold least greatest at *
    omega

theorem ofInt?_eq_none_iff {x : Int} : ofInt? x = none ↔ ¬ InRange x := by
  unfold ofInt?
  split
  · next h => exact iff_of_false (fun hn => nomatch hn) (not_not_intro h)
  · next h => exact iff_of_true rfl h

end Power

end DemandResponse
