import DemandResponse.Decimal.Text
import DemandResponse.Proofs.Digits

/-!
# Written decimals are read back

The digits of a decimal are taken up one by one. No prefix of them is beyond the bound of the
coefficient, and there are no more than 28 behind the point, so nothing is rounded: reading ends
with the coefficient and the scale that were written. The sign is kept too, except that of zero.
-/

namespace DemandResponse.Decimal

namespace Reading

/-- What a digit in bounds makes of a reading. -/
def push (r : Reading) (d : Nat) : Reading :=
  ⟨10 * r.coefficient + d, if r.point then r.scale + 1 else 0, r.point, true⟩

theorem run_digit (negative : Bool) {r : Reading} {d : Nat} (hd : d < 10)
    (hs : r.point = true → r.scale < places) (hc : 10 * r.coefficient + d < limit)
    (rest : List Char) :
    run negative r (Digits.char d :: rest) = run negative (r.push d) rest := by
  have hroom : ¬ (r.point = true ∧ places ≤ r.scale) := fun h => absurd (hs h.1) (Nat.not_lt.2 h.2)
  rw [run, if_neg hroom]
  simp only [Digits.ofChar?_char hd, if_pos hc]
  rfl

/-- Digits in bounds are taken up one by one. -/
theorem run_digits (negative : Bool) {r : Reading} {digits : List Nat}
    (hd : ∀ d ∈ digits, d < 10) (hs : r.point = true → r.scale + digits.length ≤ places)
    (hc : Digits.extend r.coefficient digits < limit) (rest : List Char) :
    run negative r (digits.map Digits.char ++ rest) = run negative (digits.foldl push r) rest := by
  induction digits generalizing r with
  | nil => rfl
  | cons d digits ih =>
    have hle := Digits.le_extend (10 * r.coefficient + d) digits
    have hfits : 10 * r.coefficient + d < limit := Nat.lt_of_le_of_lt hle hc
    simp only [List.length_cons] at hs
    have hroom : r.point = true → r.scale < places := by
      intro hp
      have := hs hp
      omega
    have hroom' : (r.push d).point = true → (r.push d).scale + digits.length ≤ places := by
      intro hp
      have := hs hp
      simp only [push] at hp ⊢
      rw [if_pos hp]
      omega
    rw [List.map_cons, List.cons_append, run_digit negative (hd d List.mem_cons_self) hroom hfits,
      ih (fun d' hd' => hd d' (List.mem_cons_of_mem d hd')) hroom' hc, List.foldl_cons]

theorem foldl_push_whole (n : Nat) (started : Bool) {digits : List Nat} (hne : digits ≠ []) :
    digits.foldl push ⟨n, 0, false, started⟩ = ⟨Digits.extend n digits, 0, false, true⟩ := by
  induction digits generalizing n started with
  | nil => exact absurd rfl hne
  | cons d digits ih =>
    cases digits with
    | nil => rfl
    | cons d' digits => exact ih (10 * n + d) true (List.cons_ne_nil _ _)

theorem foldl_push_fraction (n s : Nat) (digits : List Nat) :
    digits.foldl push ⟨n, s, true, true⟩ =
      ⟨Digits.extend n digits, s + digits.length, true, true⟩ := by
  induction digits generalizing n s with
  | nil => rfl
  | cons d digits ih =>
    have h := ih (10 * n + d) (s + 1)
    rw [Nat.add_right_comm] at h
    exact h

theorem run_dot (negative : Bool) (n s : Nat) (started : Bool) (rest : List Char) :
    run negative ⟨n, s, false, started⟩ ('.' :: rest) = run negative ⟨n, s, true, started⟩ rest := by
  rw [run, if_neg (fun h => Bool.false_ne_true h.1)]
  exact if_pos ⟨rfl, rfl⟩

/-- Reading ends with the number that all digits make, and counts those behind the point. -/
theorem run_point (negative : Bool) {whole fraction : List Nat} (hne : whole ≠ [])
    (hd : ∀ d ∈ whole ++ fraction, d < 10) (hs : fraction.length ≤ places)
    (hc : Digits.toNat (whole ++ fraction) < limit) :
    blank.run negative (whole.map Digits.char ++
        (if fraction.length = 0 then [] else '.' :: fraction.map Digits.char)) =
      (build? negative (Digits.toNat (whole ++ fraction)) fraction.length).map clearZero := by
  have hsplit : Digits.toNat (whole ++ fraction) =
      Digits.extend (Digits.extend 0 whole) fraction := Digits.extend_append 0 whole fraction
  rw [hsplit] at hc ⊢
  -- digits behind the point only add to the number, so it was in bounds before the point
  have hwhole : Digits.extend 0 whole < limit :=
    Nat.lt_of_le_of_lt (Digits.le_extend _ fraction) hc
  have hdw : ∀ d ∈ whole, d < 10 := fun d h => hd d (List.mem_append_left _ h)
  have hdf : ∀ d ∈ fraction, d < 10 := fun d h => hd d (List.mem_append_right _ h)
  rw [run_digits negative hdw (fun h => absurd h Bool.false_ne_true) hwhole, blank,
    foldl_push_whole 0 false hne]
  by_cases hnil : fraction.length = 0
  · rw [if_pos hnil, List.length_eq_zero_iff.1 hnil]
    rfl
  · have hroom : 0 + fraction.length ≤ places := by omega
    have hread := run_digits negative (r := ⟨Digits.extend 0 whole, 0, true, true⟩) hdf
      (fun _ => hroom) hc []
    rw [if_neg hnil, run_dot, ← List.append_nil (fraction.map Digits.char), hread,
      foldl_push_fraction, Nat.zero_add]
    rfl

end Reading

theorem read?_digit {c : Char} (hm : c ≠ '-') (hp : c ≠ '+') (cs : List Char) :
    read? (c :: cs) = Reading.blank.run false (c :: cs) := by
  rw [read?]
  · intro rest h
    exact hm (List.cons.inj h).1
  · intro rest h
    exact hp (List.cons.inj h).1

/-- A sign is read off, and nothing else is taken for one. -/
theorem read?_signed (negative : Bool) {digits : List Nat} (hne : digits ≠ [])
    (hd : ∀ d ∈ digits, d < 10) (rest : List Char) :
    read? ((if negative then ['-'] else []) ++ (digits.map Digits.char ++ rest)) =
      Reading.blank.run negative (digits.map Digits.char ++ rest) := by
  cases negative with
  | true => rfl
  | false =>
    obtain ⟨d, ds, rfl⟩ := List.exists_cons_of_ne_nil hne
    have hlt := hd d List.mem_cons_self
    exact read?_digit (Digits.char_ne rfl hlt) (Digits.char_ne rfl hlt) _

/-- The digits of a decimal, before and behind the point. -/
theorem chars_eq (d : Decimal) : ∃ whole fraction : List Nat, whole ≠ [] ∧
    (∀ digit ∈ whole ++ fraction, digit < 10) ∧ Digits.toNat (whole ++ fraction) = d.coefficient ∧
    fraction.length = d.scale ∧
    d.chars = (if d.negative then ['-'] else []) ++ (whole.map Digits.char ++
      (if d.scale = 0 then [] else '.' :: fraction.map Digits.char)) := by
  obtain ⟨digits, hdigits⟩ : ∃ digits, digits =
      List.replicate (d.scale + 1 - (Digits.ofNat d.coefficient).length) 0 ++
        Digits.ofNat d.coefficient := ⟨_, rfl⟩
  have hlen : d.scale + 1 ≤ digits.length := by
    rw [hdigits, List.length_append, List.length_replicate]
    omega
  refine ⟨digits.take (digits.length - d.scale), digits.drop (digits.length - d.scale),
    ?_, ?_, ?_, ?_, ?_⟩
  · rw [← List.length_pos_iff, List.length_take]
    omega
  · intro digit h
    rw [List.take_append_drop, hdigits] at h
    obtain h | h := List.mem_append.1 h
    · rw [List.eq_of_mem_replicate h]
      decide
    · exact Digits.lt_ten_of_mem_ofNat h
  · rw [List.take_append_drop, hdigits, Digits.toNat_zeros, Digits.toNat_ofNat]
  · rw [List.length_drop]
    omega
  · simp only [chars, Digits.padded_eq, ← hdigits, List.length_map, List.map_take, List.map_drop,
      List.append_assoc]

/-- A written decimal is read back with all its places. -/
theorem read?_chars (d : Decimal) : read? d.chars = some d.clearZero := by
  obtain ⟨whole, fraction, hne, hd, hvalue, hscale, hchars⟩ := chars_eq d
  have hrun := Reading.run_point d.negative hne hd (hscale ▸ d.scale_le)
    (hvalue ▸ d.coefficient_lt)
  rw [hvalue, hscale, build?_self] at hrun
  rw [hchars, read?_signed d.negative hne fun digit h => hd digit (List.mem_append_left _ h), hrun]
  rfl

example : read? "-0.50".toList = some ⟨true, 50, 2, by decide, by decide⟩ := by decide

example : read? "-0.00".toList = some ⟨false, 0, 2, by decide, by decide⟩ := by decide

theorem readAny?_chars (d : Decimal) : readAny? d.chars = some d.clearZero := by
  rw [readAny?, read?_chars]

/-- Clearing the sign of zero leaves the value as it is. -/
theorem same_clearZero (d : Decimal) : d.clearZero.same d := by
  rw [same, across, across, mantissa_clearZero, beq_iff_eq]
  rfl

theorem clearZero_eq_or (d : Decimal) :
    d.clearZero = d ∨ d.negative = true ∧ d.coefficient = 0 := by
  obtain ⟨negative, coefficient, scale, _, _⟩ := d
  cases negative with
  | false => exact .inl rfl
  | true =>
    by_cases hz : coefficient = 0
    · exact .inr ⟨rfl, hz⟩
    · left
      simp [clearZero, isZero, hz]

end DemandResponse.Decimal
