import DemandResponse.Json.Token
import DemandResponse.Proofs.Digits

/-!
# Numerals are read back

A well-formed numeral is read from its characters as the same numeral, with its digits as they
were. All its characters are marks of a numeral, so it is cut from a longer text as a whole if
what follows does not begin with such a mark. Integers are well-formed numerals and are taken
from them again.
-/

namespace DemandResponse.Json

namespace Numeral

/-- Digits where digits stand, at least one where one is needed, and no leading zero. -/
structure WellFormed (n : Numeral) : Prop where
  whole : validWhole n.whole = true
  whole_lt : ∀ d ∈ n.whole, d < 10
  fraction_lt : ∀ d ∈ n.fraction, d < 10
  exponent_ne_nil : ∀ e ∈ n.exponent, e.2 ≠ []
  exponent_lt : ∀ e ∈ n.exponent, ∀ d ∈ e.2, d < 10

/-- The digits of a number before the point are as they have to be. -/
theorem validWhole_ofNat (k : Nat) : validWhole (Digits.ofNat k) = true := by
  rw [Digits.ofNat]
  split
  · rfl
  · next h =>
    have hz := Digits.head?_ofNat_ne_zero (n := k / 10) (by omega)
    obtain ⟨d, ds, hd⟩ := List.exists_cons_of_ne_nil (Digits.ofNat_ne_nil (k / 10))
    rw [hd, List.head?_cons, Ne, Option.some.injEq] at hz
    rw [hd]
    cases ds <;> exact bne_iff_ne.2 hz

/-- A run of digits is taken up to the first character that is none. -/
theorem takeDigits_append {digits : List Nat} (hd : ∀ d ∈ digits, d < 10) {rest : List Char}
    (hr : ∀ c ∈ rest.head?, Digits.ofChar? c = none) :
    takeDigits (digits.map Digits.char ++ rest) = (digits, rest) := by
  induction digits with
  | nil =>
    cases rest with
    | nil => rfl
    | cons c rest =>
      have hc := hr c rfl
      simp only [List.map_nil, List.nil_append, takeDigits, hc]
  | cons d digits ih =>
    have hlt := hd d List.mem_cons_self
    have htail := ih fun d' hd' => hd d' (List.mem_cons_of_mem d hd')
    simp only [List.map_cons, List.cons_append, takeDigits, Digits.ofChar?_char hlt, htail]

/-- An exponent that begins with neither sign is taken as it is. -/
theorem readExponent?_digit {c : Char} (hm : c ≠ '-') (hp : c ≠ '+') {cs : List Char}
    {d : Nat} {digits : List Nat} (h : takeDigits (c :: cs) = (d :: digits, [])) :
    readExponent? (c :: cs) = some (false, d :: digits) := by
  unfold readExponent?
  split
  next negative text hsign =>
    split at hsign
    · next he => exact absurd (List.cons.inj he).1 hm
    · next he => exact absurd (List.cons.inj he).1 hp
    · cases hsign
      rw [h]

theorem readExponent?_chars (negative : Bool) {digits : List Nat} (hne : digits ≠ [])
    (hd : ∀ d ∈ digits, d < 10) :
    readExponent? ((if negative then ['-'] else []) ++ digits.map Digits.char) =
      some (negative, digits) := by
  have htake : takeDigits (digits.map Digits.char) = (digits, []) := by
    rw [← List.append_nil (digits.map Digits.char)]
    exact takeDigits_append hd fun c hc => nomatch hc
  obtain ⟨d, ds, rfl⟩ := List.exists_cons_of_ne_nil hne
  have hlt := hd d List.mem_cons_self
  cases negative with
  | true => simp only [readExponent?, if_true, List.singleton_append, htake]
  | false =>
    rw [List.map_cons] at htake
    rw [if_neg Bool.false_ne_true, List.nil_append, List.map_cons,
      readExponent?_digit (Digits.char_ne rfl hlt) (Digits.char_ne rfl hlt) htake]

def exponentChars : Option (Bool × List Nat) → List Char
  | none => []
  | some (negative, digits) => 'e' :: (if negative then ['-'] else []) ++ digits.map Digits.char

/-- What is written of a numeral behind its digits before the point. -/
def tailChars (n : Numeral) : List Char :=
  (if n.fraction.isEmpty then [] else '.' :: n.fraction.map Digits.char) ++
    exponentChars n.exponent

theorem chars_eq (n : Numeral) :
    n.chars = (if n.negative then ['-'] else []) ++ (n.whole.map Digits.char ++ n.tailChars) := by
  simp only [chars, tailChars, List.append_assoc]
  rfl

theorem not_digit_of_exponentChars (exponent : Option (Bool × List Nat)) :
    ∀ c ∈ (exponentChars exponent).head?, Digits.ofChar? c = none := by
  cases exponent with
  | none => exact fun c hc => nomatch hc
  | some e =>
    rintro c ⟨⟩
    rfl

theorem not_digit_of_tailChars (n : Numeral) :
    ∀ c ∈ n.tailChars.head?, Digits.ofChar? c = none := by
  unfold tailChars
  cases n.fraction with
  | nil => exact not_digit_of_exponentChars n.exponent
  | cons d ds =>
    rintro c ⟨⟩
    rfl

theorem readTail?_exponentChars (negative : Bool) (whole fraction : List Nat)
    {exponent : Option (Bool × List Nat)} (hne : ∀ e ∈ exponent, e.2 ≠ [])
    (hd : ∀ e ∈ exponent, ∀ d ∈ e.2, d < 10) :
    readTail? negative whole fraction (exponentChars exponent) =
      some ⟨negative, whole, fraction, exponent⟩ := by
  cases exponent with
  | none => rfl
  | some e =>
    rw [exponentChars, List.cons_append, readTail?, if_pos (.inl rfl),
      readExponent?_chars e.1 (hne e rfl) (hd e rfl)]
    rfl

/-- Digits before the point are followed by a point with digits, or by the tail at once. -/
theorem readUnsigned?_chars {n : Numeral} (hn : n.WellFormed) :
    readUnsigned? n.negative (n.whole.map Digits.char ++ n.tailChars) = some n := by
  have hwhole := takeDigits_append hn.whole_lt (not_digit_of_tailChars n)
  have htail := readTail?_exponentChars n.negative n.whole n.fraction hn.exponent_ne_nil
    hn.exponent_lt
  simp only [readUnsigned?, hwhole, hn.whole, if_true]
  obtain ⟨negative, whole, fraction, exponent⟩ := n
  cases fraction with
  | nil => cases exponent <;> exact htail
  | cons d ds =>
    have hfraction := takeDigits_append hn.fraction_lt (not_digit_of_exponentChars exponent)
    simp only [tailChars, List.isEmpty_cons, Bool.false_eq_true, if_false, List.cons_append]
    rw [hfraction]
    exact htail

theorem read?_digit {c : Char} (hc : c ≠ '-') (cs : List Char) :
    read? (c :: cs) = readUnsigned? false (c :: cs) := by
  rw [read?]
  intro rest h
  exact hc (List.cons.inj h).1

/-- The digits before the point begin with one. -/
theorem whole_eq_cons {n : Numeral} (hn : n.WellFormed) :
    ∃ d ds, n.whole = d :: ds ∧ d < 10 := by
  cases h : n.whole with
  | nil =>
    have hw := hn.whole
    rw [h] at hw
    cases hw
  | cons d ds => exact ⟨d, ds, rfl, hn.whole_lt d (h ▸ List.mem_cons_self)⟩

/-- A numeral is read back as it was written. -/
theorem read?_chars {n : Numeral} (hn : n.WellFormed) : read? n.chars = some n := by
  have hread := readUnsigned?_chars hn
  rw [chars_eq]
  cases hneg : n.negative with
  | true =>
    rw [hneg] at hread
    exact hread
  | false =>
    obtain ⟨d, ds, hwhole, hd⟩ := whole_eq_cons hn
    rw [hneg, hwhole, List.map_cons, List.cons_append] at hread
    rw [if_neg Bool.false_ne_true, List.nil_append, hwhole, List.map_cons, List.cons_append,
      read?_digit (Digits.char_ne rfl hd), hread]

theorem isMark_char {d : Nat} (h : d < 10) : isMark (Digits.char d) = true := by
  rw [isMark, Digits.ofChar?_char h]
  rfl

theorem isMark_of_mem_digits {digits : List Nat} (hd : ∀ d ∈ digits, d < 10) {c : Char}
    (hc : c ∈ digits.map Digits.char) : isMark c = true := by
  obtain ⟨d, hmem, rfl⟩ := List.mem_map.1 hc
  exact isMark_char (hd d hmem)

theorem isMark_of_mem_sign {negative : Bool} {c : Char}
    (hc : c ∈ if negative then ['-'] else []) : isMark c = true := by
  cases negative with
  | false => cases hc
  | true =>
    rw [List.mem_singleton.1 hc]
    rfl

/-- A numeral is written with marks of a numeral alone. -/
theorem isMark_of_mem_chars {n : Numeral} (hn : n.WellFormed) {c : Char} (hc : c ∈ n.chars) :
    isMark c = true := by
  rw [chars_eq, tailChars] at hc
  simp only [List.mem_append] at hc
  obtain hc | hc | hc | hc := hc
  · exact isMark_of_mem_sign hc
  · exact isMark_of_mem_digits hn.whole_lt hc
  · split at hc
    · cases hc
    · obtain rfl | hc := List.mem_cons.1 hc
      · rfl
      · exact isMark_of_mem_digits hn.fraction_lt hc
  · cases he : n.exponent with
    | none =>
      rw [he] at hc
      cases hc
    | some e =>
      rw [he, exponentChars, List.cons_append] at hc
      obtain rfl | hc := List.mem_cons.1 hc
      · rfl
      · obtain hc | hc := List.mem_append.1 hc
        · exact isMark_of_mem_sign hc
        · exact isMark_of_mem_digits (hn.exponent_lt e he) hc

theorem chars_eq_cons {n : Numeral} (hn : n.WellFormed) :
    ∃ c cs, n.chars = c :: cs ∧ isMark c = true := by
  obtain ⟨d, ds, hwhole, -⟩ := whole_eq_cons hn
  have hne : n.chars ≠ [] := by
    rw [chars_eq, hwhole]
    exact List.append_ne_nil_of_right_ne_nil _ (List.cons_ne_nil _ _)
  obtain ⟨c, cs, hc⟩ := List.exists_cons_of_ne_nil hne
  exact ⟨c, cs, hc, isMark_of_mem_chars hn (hc ▸ List.mem_cons_self)⟩

/-- A text that no numeral runs on into. -/
def Unmarked (rest : List Char) : Prop := ∀ c ∈ rest.head?, isMark c = false

theorem unmarked_nil : Unmarked [] := fun _ hc => nomatch hc

theorem unmarked_cons {c : Char} (hc : isMark c = false) (rest : List Char) :
    Unmarked (c :: rest) := by
  rintro _ ⟨⟩
  exact hc

/-- A numeral is cut from a text as a whole. -/
theorem numeral?_chars {n : Numeral} (hn : n.WellFormed) {rest : List Char} (hr : Unmarked rest) :
    Token.numeral? (n.chars ++ rest) = some (.num n, rest) := by
  have hmarks : ∀ c ∈ n.chars, isMark c = true := fun c hc => isMark_of_mem_chars hn hc
  have hrest : rest.takeWhile isMark = [] ∧ rest.dropWhile isMark = rest := by
    cases rest with
    | nil => exact ⟨rfl, rfl⟩
    | cons c rest =>
      have hc : ¬ isMark c = true := by
        rw [hr c rfl]
        exact Bool.false_ne_true
      exact ⟨List.takeWhile_cons_of_neg hc, List.dropWhile_cons_of_neg hc⟩
  rw [Token.numeral?, List.takeWhile_append_of_pos hmarks, List.dropWhile_append_of_pos hmarks,
    hrest.1, hrest.2, List.append_nil, read?_chars hn]
  rfl

theorem wellFormed_ofInt (k : Int) : (ofInt k).WellFormed where
  whole := validWhole_ofNat _
  whole_lt _ hd := Digits.lt_ten_of_mem_ofNat hd
  fraction_lt _ hd := nomatch hd
  exponent_ne_nil _ he := nomatch he
  exponent_lt _ he := nomatch he

/-- An integer is never written as a negative zero, which would be none. -/
theorem int?_ofInt (k : Int) : (ofInt k).int? = some k := by
  have hzero : ¬ (decide (k < 0) = true ∧ k.natAbs = 0) := by
    rw [decide_eq_true_eq]
    omega
  have hvalue : (if decide (k < 0) = true then -(k.natAbs : Int) else k.natAbs) = k := by
    simp only [decide_eq_true_eq]
    split <;> omega
  simp only [int?, ofInt, Digits.toNat_ofNat]
  rw [if_pos ⟨rfl, rfl, hzero⟩, hvalue]

end Numeral

end DemandResponse.Json
