/-!
# The odometer

A cursor has one wheel per site; the wheel of a site with `n` offers shows 0 to `n`. Advancing
turns the first wheel that is not at its end by one and returns the wheels before it to zero. At
the end of the last combination all wheels return to zero and the cursor has not moved. Each
move lowers `remaining` by exactly one, which bounds every walk over the combinations.
-/

namespace DemandResponse.Matching.Odometer

/-- Whether the cursor moved, and where it is now. -/
def advance : (sizes cursor : List Nat) → Bool × List Nat
  | size :: sizes, k :: cursor =>
    if k < size then (true, (k + 1) :: cursor)
    else
      let (moved, rest) := advance sizes cursor
      (moved, 0 :: rest)
  | _, cursor => (false, cursor)

def start (sizes : List Nat) : List Nat := sizes.map fun _ => 0

/-- How often the cursor can still move. -/
def remaining : (sizes cursor : List Nat) → Nat
  | size :: sizes, k :: cursor => (size - k) + (size + 1) * remaining sizes cursor
  | _, _ => 0

/-- A move uses up one of the remaining combinations, wherever the cursor stands. -/
theorem remaining_advance {sizes cursor next : List Nat}
    (h : advance sizes cursor = (true, next)) :
    remaining sizes cursor = remaining sizes next + 1 := by
  induction sizes generalizing cursor next with
  | nil => simp [advance] at h
  | cons size sizes ih =>
    cases cursor with
    | nil => simp [advance] at h
    | cons k cursor =>
      rw [advance] at h
      split at h
      · next hk =>
        obtain rfl := (Prod.mk.inj h).2
        simp only [remaining]
        omega
      · next hk =>
        obtain ⟨hm, rfl⟩ := Prod.mk.inj h
        have hr := @ih cursor (advance sizes cursor).2 (Prod.ext hm rfl)
        simp only [remaining, hr, Nat.mul_add]
        omega

/-- The bound of a combination count, 2^128. -/
def spaceLimit : Nat := 0x100000000000000000000000000000000

/-- The number of combinations, idle included, as long as it stays below the limit. -/
def searchSpace (sizes : List Nat) : Option Nat :=
  sizes.foldlM (fun n size => if n * (size + 1) < spaceLimit then some (n * (size + 1)) else none) 1

end DemandResponse.Matching.Odometer
