import DemandResponse.Digits

/-!
# Digits that are written

A number is written with at least one digit, all of them below ten, and with no leading zero
unless the number is zero itself. A digit is read back from its character.
-/

namespace DemandResponse.Digits

theorem ofChar?_char {d : Nat} (h : d < 10) : ofChar? (char d) = some d := by
  have hall : ∀ d < 10, ofChar? (char d) = some d := by decide
  exact hall d h

/-- A character that is no digit is none of those that digits are written with. -/
theorem char_ne {c : Char} (hc : ofChar? c = none) {d : Nat} (h : d < 10) : char d ≠ c := by
  rintro rfl
  rw [ofChar?_char h] at hc
  cases hc

theorem ofNat_ne_nil (n : Nat) : ofNat n ≠ [] := by
  rw [ofNat]
  split
  · exact List.cons_ne_nil _ _
  · exact List.append_ne_nil_of_right_ne_nil _ (List.cons_ne_nil _ _)

theorem lt_ten_of_mem_ofNat {n d : Nat} (hd : d ∈ ofNat n) : d < 10 := by
  induction n using Nat.strongRecOn with
  | ind n ih =>
    rw [ofNat] at hd
    split at hd
    · next h => exact List.mem_singleton.1 hd ▸ h
    · obtain hd | hd := List.mem_append.1 hd
      · exact ih (n / 10) (by omega) hd
      · rw [List.mem_singleton.1 hd]
        exact Nat.mod_lt _ (by decide)

theorem head?_ofNat_ne_zero {n : Nat} (h : 0 < n) : (ofNat n).head? ≠ some 0 := by
  induction n using Nat.strongRecOn with
  | ind n ih =>
    rw [ofNat]
    split
    · intro he
      cases he
      exact Nat.lt_irrefl 0 h
    · have hz := ih (n / 10) (by omega) (by omega)
      obtain ⟨d, ds, hd⟩ := List.exists_cons_of_ne_nil (ofNat_ne_nil (n / 10))
      rw [hd] at hz ⊢
      exact hz

/-- The digits are those that every number is shown with. -/
theorem chars_eq_toDigits (n : Nat) : chars n = Nat.toDigits 10 n := by
  have hchar : ∀ d < 10, char d = Nat.digitChar d := by decide
  induction n using Nat.strongRecOn with
  | ind n ih =>
    rw [chars, ofNat]
    split
    · next h => rw [Nat.toDigits_of_lt_base h, List.map_singleton, hchar n h]
    · have hdigit := hchar (n % 10) (Nat.mod_lt n (by decide))
      have hleading := ih (n / 10) (by omega)
      rw [chars] at hleading
      rw [Nat.toDigits_of_base_le (by decide) (by omega), List.map_append, hleading,
        List.map_singleton, hdigit]

/-- The number that some digits make of the number before them. -/
def extend (n : Nat) (digits : List Nat) : Nat := digits.foldl (fun n d => 10 * n + d) n

theorem extend_append (n : Nat) (a b : List Nat) : extend n (a ++ b) = extend (extend n a) b :=
  List.foldl_append

/-- More digits never make less. -/
theorem le_extend (n : Nat) (digits : List Nat) : n ≤ extend n digits := by
  induction digits generalizing n with
  | nil => exact Nat.le_refl n
  | cons d digits ih =>
    calc n
      _ ≤ 10 * n + d := by omega
      _ ≤ extend (10 * n + d) digits := ih (10 * n + d)

/-- Zeros in front count for nothing. -/
theorem toNat_zeros (k : Nat) (digits : List Nat) :
    toNat (List.replicate k 0 ++ digits) = toNat digits := by
  induction k with
  | zero => rfl
  | succ k ih => exact ih

/-- Filling up to a width puts zeros in front of the digits of the number. -/
theorem padded_eq (width n : Nat) :
    padded width n = (List.replicate (width - (ofNat n).length) 0 ++ ofNat n).map char := by
  rw [padded, List.leftpad, List.map_append, List.map_replicate, chars, List.length_map]
  rfl

theorem mapM_ofChar? {digits : List Nat} (h : ∀ d ∈ digits, d < 10) :
    (digits.map char).mapM ofChar? = some digits := by
  induction digits with
  | nil => rfl
  | cons d digits ih =>
    rw [List.map_cons, List.mapM_cons, ofChar?_char (h d List.mem_cons_self),
      ih fun e he => h e (List.mem_cons_of_mem d he)]
    rfl

/-- A number is read back at whatever width it was written. -/
theorem read?_padded (width n : Nat) : read? (padded width n) = some n := by
  have hdigits : ∀ d ∈ List.replicate (width - (ofNat n).length) 0 ++ ofNat n, d < 10 := by
    intro d hd
    rcases List.mem_append.1 hd with hd | hd
    · rw [(List.mem_replicate.1 hd).2]
      decide
    · exact lt_ten_of_mem_ofNat hd
  have hne : (padded width n).isEmpty = false := by
    rw [padded_eq, List.isEmpty_eq_false_iff]
    simp [ofNat_ne_nil]
  rw [read?, hne, if_neg Bool.false_ne_true, padded_eq, mapM_ofChar? hdigits, Option.map_some,
    toNat_zeros, toNat_ofNat]

end DemandResponse.Digits
