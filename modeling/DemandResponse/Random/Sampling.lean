import DemandResponse.Random.Draw
import DemandResponse.Random.Stream

/-!
# Numbers from a stream

A uniform number below `n` is the high part of a product of `n` with raw bits. Raw values whose
low part exceeds a zone are drawn again; the zone holds the largest multiple of `n` by a power of
two, so a raw value is kept with probability one half or more. Nothing bounds how many are turned
down.
-/

namespace DemandResponse.Random

namespace Width

def bits : Width → Nat
  | .short => 32
  | .long => 64

/-- The raw bits that a stream gives next. -/
def draw : (width : Width) → Stream → Fin width.size × Stream
  | .short, s => (s.draw32.1.toFin, s.draw32.2)
  | .long, s => (s.draw64.1.toFin, s.draw64.2)

end Width

/-- A number from zero to `last`. -/
abbrev UpTo (last : Nat) := { x : Nat // x ≤ last }

instance (last : Nat) : Nonempty (UpTo last × Stream) := ⟨⟨0, Nat.zero_le last⟩, default⟩

/-- The high part of the product of a raw value with the count of numbers up to `last`. -/
def scale (width : Width) (last : Nat) (raw : Fin width.size) : UpTo last :=
  ⟨raw.val * (last + 1) / width.size, Nat.le_of_lt_succ
    (Nat.div_lt_of_lt_mul (Nat.mul_lt_mul_of_pos_right raw.isLt (Nat.succ_pos last)))⟩

/-- The greatest low part that is kept for a bound of `n`. -/
def zone (bits n : Nat) : Nat := (n <<< (bits - 1 - n.log2)) - 1

/-- A raw value is turned into a number, or turned down. -/
def attempt (width : Width) (last : Nat) (s : Stream) : Id (Stream ⊕ UpTo last × Stream) :=
  let (raw, s) := width.draw s
  if raw.val * (last + 1) % width.size ≤ zone width.bits (last + 1) then
    .inr (scale width last raw, s)
  else .inl s

/-- The number of the first attempt that succeeds. Without one the draw would not end. -/
def upTo (width : Width) (last : Nat) (s : Stream) : UpTo last × Stream :=
  Id.run (repeatM (attempt width last) s)

theorem upTo_eq (width : Width) (last : Nat) (s : Stream) :
    upTo width last s =
      match attempt width last s with
      | .inl s => upTo width last s
      | .inr result => result := by
  rw [upTo, repeatM_eq_of_monadTail, repeatM.body]
  cases attempt width last s <;> rfl

/-- A raw value as an integer of a range that has as many members as there are raw values. -/
def wrap (width : Width) (high : Int) (raw : Nat) : Int :=
  if (raw : Int) ≤ high then raw else raw - width.size

/-- An integer from `low` to `high`. If every raw value stands for one integer of the range, raw
values are taken as they are. -/
def between (width : Width) (low high : Int) (s : Stream) : Int × Stream :=
  let last := (high - low).toNat
  if last + 1 = width.size then
    let (raw, s) := width.draw s
    (wrap width high raw.val, s)
  else
    let (offset, s) := upTo width last s
    (low + offset.val, s)

def coin (s : Stream) : Bool × Stream :=
  let (raw, s) := s.draw64
  (raw < 0x8000000000000000, s)

/-- The generator that books are made with. -/
def standard : Generator Stream where
  ofSeed := .ofSeed
  coin := coin
  between := between

end DemandResponse.Random
