/-!
# Decimal digits

Numbers as lists of digits, the most significant first, and digits as characters. A number has no
leading zero except that zero itself is written as one; reading accepts leading zeros.
-/

namespace DemandResponse.Digits

def ofNat (n : Nat) : List Nat :=
  if n < 10 then [n] else ofNat (n / 10) ++ [n % 10]
termination_by n

def toNat (digits : List Nat) : Nat := digits.foldl (fun n d => 10 * n + d) 0

/-- The power of ten that moves a number some digits up. -/
def tenTo (n : Nat) : Nat := Nat.pow 10 n

def char (d : Nat) : Char := Char.ofNat (48 + d)

def ofChar? (c : Char) : Option Nat :=
  if '0' ≤ c ∧ c ≤ '9' then some (c.toNat - 48) else none

def chars (n : Nat) : List Char := (ofNat n).map char

/-- A number as text, filled up with zeros to a least width. -/
def padded (width n : Nat) : List Char := (chars n).leftpad width '0'

/-- A text of digits, which must not be empty, as a number. -/
def read? (text : List Char) : Option Nat :=
  if text.isEmpty then none else (text.mapM ofChar?).map toNat

theorem tenTo_zero : tenTo 0 = 1 := rfl

theorem tenTo_succ (n : Nat) : tenTo (n + 1) = 10 * tenTo n := Nat.mul_comm _ _

theorem tenTo_pos (n : Nat) : 0 < tenTo n := Nat.pow_pos (by decide)

theorem toNat_ofNat (n : Nat) : toNat (ofNat n) = n := by
  induction n using Nat.strongRecOn with
  | ind n ih =>
    rw [ofNat]
    split
    · simp [toNat]
    · have h := ih (n / 10) (by omega)
      simp only [toNat] at h ⊢
      rw [List.foldl_append, h]
      simp only [List.foldl_cons, List.foldl_nil]
      omega

end DemandResponse.Digits
