import DemandResponse.Json.Text

/-!
# Quoted text is read back

Each piece of a text is written so that reading takes up exactly this piece and goes on behind
it. So the inside of a written string ends at its own closing quote, and is the text that was
written, whatever follows.
-/

namespace DemandResponse.Json

/-- A piece that text can hold: half of a pair is a code unit from the surrogate range. -/
def Piece.WellFormed : Piece → Prop
  | .char _ => True
  | .half unit => (Text.isHigh unit || Text.isLow unit) = true

namespace Text

theorem hexDigit?_hexChar {d : Nat} (h : d < 16) : hexDigit? (hexChar d) = some d := by
  have hall : ∀ d < 16, hexDigit? (hexChar d) = some d := by decide
  exact hall d h

/-- A code unit is read back from its four digits. -/
theorem unit?_hexChar {unit : Nat} (h : unit < 0x10000) :
    unit? (hexChar (unit / 4096 % 16)) (hexChar (unit / 256 % 16)) (hexChar (unit / 16 % 16))
      (hexChar (unit % 16)) = some unit := by
  have hmod (n : Nat) : n % 16 < 16 := Nat.mod_lt _ (by decide)
  simp only [unit?, hexDigit?_hexChar (hmod _), Option.bind_eq_bind, Option.bind_some,
    Option.pure_def, Option.some.injEq]
  omega

theorem scan_escapeUnit {unit : Nat} (h : unit < 0x10000) (rest : List Char) :
    scan (escapeUnit unit ++ rest) = (scan rest).map fun r => (pieceOf unit :: r.1, r.2) := by
  simp only [escapeUnit, List.cons_append, List.nil_append]
  rw [scan, unit?_hexChar h]
  cases scan rest <;> rfl

theorem scan_short {c mark : Char} (hu : mark ≠ 'u') (hm : unescape? mark = some c)
    (rest : List Char) :
    scan ('\\' :: mark :: rest) = (scan rest).map fun r => (.char c :: r.1, r.2) := by
  rw [scan, hm]
  · cases scan rest <;> rfl
  · intro a b c d r hc
    exact absurd hc hu

theorem scan_plain {c : Char} (hq : c ≠ '"') (hb : c ≠ '\\') (hc : ¬ c < ' ')
    (rest : List Char) :
    scan (c :: rest) = (scan rest).map fun r => (.char c :: r.1, r.2) := by
  rw [scan, if_neg hc]
  · cases scan rest <;> rfl
  · exact fun h => absurd h hq
  · intro a b c d r h
    exact absurd h hb
  · intro a b h
    exact absurd h hb

/-- A character is written by a short escape, by that of its code unit, or as it is. -/
theorem escape_cases (c : Char) :
    (∃ mark, mark ≠ 'u' ∧ unescape? mark = some c ∧ escape c = ['\\', mark]) ∨
      (c < ' ' ∧ escape c = escapeUnit c.toNat) ∨
        (c ≠ '"' ∧ c ≠ '\\' ∧ ¬ c < ' ' ∧ escape c = [c]) := by
  by_cases hq : c = '"'
  · subst hq
    exact .inl ⟨'"', by decide, rfl, rfl⟩
  by_cases hb : c = '\\'
  · subst hb
    exact .inl ⟨'\\', by decide, rfl, rfl⟩
  by_cases h : c = '\x08' ∨ c = '\x0c' ∨ c = '\n' ∨ c = '\r' ∨ c = '\t'
  · left
    obtain rfl | rfl | rfl | rfl | rfl := h
    · exact ⟨'b', by decide, rfl, rfl⟩
    · exact ⟨'f', by decide, rfl, rfl⟩
    · exact ⟨'n', by decide, rfl, rfl⟩
    · exact ⟨'r', by decide, rfl, rfl⟩
    · exact ⟨'t', by decide, rfl, rfl⟩
  · simp only [not_or] at h
    obtain ⟨h8, hf, hn, hr, ht⟩ := h
    right
    simp only [escape, if_neg hq, if_neg hb, if_neg h8, if_neg hf, if_neg hn, if_neg hr,
      if_neg ht]
    by_cases hc : c < ' '
    · exact .inl ⟨hc, if_pos hc⟩
    · exact .inr ⟨hq, hb, hc, if_neg hc⟩

theorem pieceOf_control {c : Char} (h : c.toNat < 32) : pieceOf c.toNat = .char c := by
  have hhalf : ¬ (isHigh c.toNat || isLow c.toNat) = true := by
    simp only [isHigh, isLow, Bool.or_eq_true, Bool.and_eq_true, decide_eq_true_eq]
    omega
  rw [pieceOf, if_neg hhalf, Char.ofNat_toNat]

theorem scan_escape (c : Char) (rest : List Char) :
    scan (escape c ++ rest) = (scan rest).map fun r => (.char c :: r.1, r.2) := by
  obtain ⟨mark, hu, hm, h⟩ | ⟨hc, h⟩ | ⟨hq, hb, hc, h⟩ := escape_cases c
  · rw [h]
    exact scan_short hu hm rest
  · have hlt : c.toNat < 32 := hc
    -- control characters are below the surrogates, so their unit is no half
    rw [h, scan_escapeUnit (by omega), pieceOf_control hlt]
  · rw [h]
    exact scan_plain hq hb hc rest

theorem scan_pieceChars {p : Piece} (hp : p.WellFormed) (rest : List Char) :
    scan (pieceChars p ++ rest) = (scan rest).map fun r => (p :: r.1, r.2) := by
  cases p with
  | char c => exact scan_escape c rest
  | half unit =>
    have hlt : unit < 0x10000 := by
      simp only [Piece.WellFormed, isHigh, isLow, Bool.or_eq_true, Bool.and_eq_true,
        decide_eq_true_eq] at hp
      omega
    have hpiece : pieceOf unit = .half unit := if_pos hp
    rw [pieceChars, scan_escapeUnit hlt, hpiece]

def WellFormed (text : Text) : Prop := ∀ p ∈ text, p.WellFormed

/-- The inside of a written string is read up to its closing quote, as the text it is. -/
theorem scan_chars {text : Text} (h : WellFormed text) (rest : List Char) :
    scan (text.flatMap pieceChars ++ '"' :: rest) = some (text, rest) := by
  induction text with
  | nil => rw [List.flatMap_nil, List.nil_append, scan]
  | cons p text ih =>
    have hp := h p List.mem_cons_self
    have htext : WellFormed text := fun q hq => h q (List.mem_cons_of_mem p hq)
    rw [List.flatMap_cons, List.append_assoc, scan_pieceChars hp, ih htext]
    rfl

theorem wellFormed_ofChars (cs : List Char) : WellFormed (ofChars cs) := by
  intro p hp
  obtain ⟨c, -, rfl⟩ := List.mem_map.1 hp
  exact trivial

end Text

end DemandResponse.Json
