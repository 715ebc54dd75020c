import DemandResponse.Json.Reading
import DemandResponse.Proofs.Json.Numerals
import DemandResponse.Proofs.Json.Quoting

/-!
# Rendered values are read back

A reader that waits for a value and is given the characters of a well-formed one takes up exactly
these and has the value in its innermost frame, whatever follows. This is shown for all values by
induction on how they are put together; arrays and objects are worked off item by item. So a text
that a well-formed value is rendered to is read as that value.
-/

namespace DemandResponse.Json

/-- Values that have a text: their strings and numerals are well-formed. -/
inductive WellFormed : Json → Prop
  | null : WellFormed .null
  | bool (b : Bool) : WellFormed (.bool b)
  | num {n : Numeral} (h : n.WellFormed) : WellFormed (.num n)
  | str {text : Text} (h : text.WellFormed) : WellFormed (.str text)
  | arr {items : List Json} (h : ∀ j ∈ items, WellFormed j) : WellFormed (.arr items)
  | obj {members : List (Text × Json)} (hk : ∀ m ∈ members, m.1.WellFormed)
    (hv : ∀ m ∈ members, WellFormed m.2) : WellFormed (.obj members)

namespace Token

theorem scan_nil : scan [] = some [] := by rw [scan]

theorem scan_cons {c : Char} (hb : isBlank c = false) (rest : List Char) :
    scan (c :: rest) = (next? (c :: rest)).bind fun r => (scan r.2).map (r.1 :: ·) := by
  rw [scan, if_neg (by rw [hb]; exact Bool.false_ne_true)]
  split
  · next hn => rw [hn]; rfl
  · next hs => simp only [hs, Option.bind_some]

/-- Every other token begins with a character that is no mark of a numeral. -/
theorem next?_mark {c : Char} (hc : Numeral.isMark c = true) (rest : List Char) :
    next? (c :: rest) = numeral? (c :: rest) := by
  rw [next?]
  all_goals
    intro r h
    cases h
    exact absurd hc (by decide)

theorem isBlank_of_isMark {c : Char} (hc : Numeral.isMark c = true) : isBlank c = false := by
  rw [← Bool.not_eq_true]
  intro hb
  simp only [isBlank, Bool.or_eq_true, beq_iff_eq] at hb
  obtain ((rfl | rfl) | rfl) | rfl := hb <;> exact absurd hc (by decide)

theorem eq_of_next?_closeArray {c : Char} {rest rest' : List Char}
    (h : next? (c :: rest) = some (.closeArray, rest')) : c = ']' := by
  unfold next? at h
  split at h
  -- apart from the bracket itself, only strings and numerals are not given outright
  case h_2 he => exact (List.cons.inj he).1
  case h_7 =>
    obtain ⟨r, -, hr⟩ := Option.map_eq_some_iff.1 h
    cases hr
  case h_11 =>
    obtain ⟨n, -, hn⟩ := Option.map_eq_some_iff.1 h
    cases hn
  all_goals cases h

end Token

namespace Progress

/-- Read on from a state over a whole text. -/
def run (p : Progress) (text : List Char) : Option Progress :=
  (Token.scan text).bind fun tokens => tokens.foldlM step p

theorem run_nil (p : Progress) : p.run [] = some p := by
  rw [run, Token.scan_nil]
  rfl

theorem run_cons (p : Progress) {c : Char} (hb : Token.isBlank c = false) (rest : List Char) :
    p.run (c :: rest) =
      (Token.next? (c :: rest)).bind fun r => (p.step r.1).bind fun p' => p'.run r.2 := by
  simp only [run, Token.scan_cons hb]
  cases Token.next? (c :: rest) with
  | none => rfl
  | some r =>
    simp only [Option.bind_some]
    cases Token.scan r.2 with
    | none => cases p.step r.1 <;> rfl
    | some tokens => rfl

/-- Reading a token that is expected. -/
theorem run_token {p p' : Progress} {c : Char} {rest rest' : List Char} {token : Token}
    (hb : Token.isBlank c = false) (hn : Token.next? (c :: rest) = some (token, rest'))
    (hs : p.step token = some p') : p.run (c :: rest) = p'.run rest' := by
  rw [run_cons p hb, hn, Option.bind_some, hs, Option.bind_some]

/-- Where an item may come first, a text that does not close the array begins a value. -/
theorem run_firstItem (frames : List Frame) {c : Char} (hb : Token.isBlank c = false)
    (hc : c ≠ ']') (rest : List Char) :
    run ⟨.firstItem, frames⟩ (c :: rest) = run ⟨.value, .item [] :: frames⟩ (c :: rest) := by
  rw [run_cons _ hb, run_cons _ hb]
  cases hn : Token.next? (c :: rest) with
  | none => rfl
  | some r =>
    obtain ⟨token, rest'⟩ := r
    have hstep : step ⟨.firstItem, frames⟩ token = step ⟨.value, .item [] :: frames⟩ token := by
      cases token
      case closeArray => exact absurd (Token.eq_of_next?_closeArray hn) hc
      all_goals rfl
    rw [Option.bind_some, Option.bind_some, hstep]

theorem run_str {p p' : Progress} {text : Text} (ht : text.WellFormed)
    (hs : p.step (.str text) = some p') (rest : List Char) :
    p.run (Text.chars text ++ rest) = p'.run rest := by
  have hn : Token.next? ('"' :: (text.flatMap Text.pieceChars ++ '"' :: rest)) =
      some (.str text, rest) := by
    rw [Token.next?, Text.scan_chars ht]
    rfl
  rw [Text.chars, List.append_assoc, List.cons_append]
  exact run_token rfl hn hs

theorem run_num {p p' : Progress} {n : Numeral} (hn : n.WellFormed)
    (hs : p.step (.num n) = some p') {rest : List Char} (hr : Numeral.Unmarked rest) :
    p.run (n.chars ++ rest) = p'.run rest := by
  have hread := Numeral.numeral?_chars hn hr
  obtain ⟨c, cs, hc, hmark⟩ := Numeral.chars_eq_cons hn
  rw [hc, List.cons_append] at hread ⊢
  rw [← Token.next?_mark hmark] at hread
  exact run_token (Token.isBlank_of_isMark hmark) hread hs

end Progress

/-- The first character of a value is neither a blank nor the end of an array. -/
theorem chars_eq_cons {j : Json} (hj : j.WellFormed) :
    ∃ c cs, j.chars = c :: cs ∧ Token.isBlank c = false ∧ c ≠ ']' := by
  cases hj with
  | null => exact ⟨'n', _, rfl, by decide⟩
  | bool b =>
    cases b with
    | true => exact ⟨'t', _, rfl, by decide⟩
    | false => exact ⟨'f', _, rfl, by decide⟩
  | num hn =>
    obtain ⟨c, cs, hc, hmark⟩ := Numeral.chars_eq_cons hn
    refine ⟨c, cs, hc, Token.isBlank_of_isMark hmark, ?_⟩
    rintro rfl
    exact absurd hmark (by decide)
  | str => exact ⟨'"', _, rfl, by decide⟩
  | arr => exact ⟨'[', _, rfl, by decide⟩
  | obj => exact ⟨'{', _, rfl, by decide⟩

/-- A reader that waits for this value takes it up, and puts it into the innermost frame. -/
def Reads (j : Json) : Prop :=
  ∀ (frames : List Frame) {rest : List Char}, Numeral.Unmarked rest →
    Progress.run ⟨.value, frames⟩ (j.chars ++ rest) = Progress.run (Progress.put j frames) rest

namespace Progress

theorem put_item (j : Json) (items : List Json) (frames : List Frame) :
    put j (.item items :: frames) = ⟨.nextItem (j :: items), frames⟩ := rfl

theorem put_member (j : Json) (members : List (Text × Json)) (key : Text)
    (frames : List Frame) :
    put j (.member members key :: frames) = ⟨.nextMember ((key, j) :: members), frames⟩ := rfl

theorem run_itemComma (items : List Json) (frames : List Frame) (rest : List Char) :
    run ⟨.nextItem items, frames⟩ (',' :: rest) = run ⟨.value, .item items :: frames⟩ rest :=
  run_token rfl rfl rfl

theorem run_itemsEnd (items : List Json) (frames : List Frame) (rest : List Char) :
    run ⟨.nextItem items, frames⟩ (']' :: rest) = run (put (.arr items.reverse) frames) rest :=
  run_token rfl rfl rfl

theorem run_colon (members : List (Text × Json)) (key : Text) (frames : List Frame)
    (rest : List Char) :
    run ⟨.colon members key, frames⟩ (':' :: rest) =
      run ⟨.value, .member members key :: frames⟩ rest :=
  run_token rfl rfl rfl

theorem run_memberComma (members : List (Text × Json)) (frames : List Frame)
    (rest : List Char) :
    run ⟨.nextMember members, frames⟩ (',' :: rest) = run ⟨.key members, frames⟩ rest :=
  run_token rfl rfl rfl

theorem run_membersEnd (members : List (Text × Json)) (frames : List Frame)
    (rest : List Char) :
    run ⟨.nextMember members, frames⟩ ('}' :: rest) =
      run (put (.obj members.reverse) frames) rest :=
  run_token rfl rfl rfl

/-- Items are taken up one by one behind those that were read before. -/
theorem run_items {items : List Json} (hne : items ≠ []) (h : ∀ j ∈ items, j.Reads)
    (done : List Json) (frames : List Frame) (rest : List Char) :
    run ⟨.value, .item done :: frames⟩ (chars.itemChars items ++ ']' :: rest) =
      run (put (.arr (done.reverse ++ items)) frames) rest := by
  induction items generalizing done with
  | nil => exact absurd rfl hne
  | cons j items ih =>
    have hj := h j List.mem_cons_self
    cases items with
    | nil =>
      rw [chars.itemChars, hj _ (Numeral.unmarked_cons rfl _), put_item, run_itemsEnd,
        List.reverse_cons]
    | cons k items =>
      have htail := ih (List.cons_ne_nil _ _) fun j hj => h j (List.mem_cons_of_mem _ hj)
      have hchars : chars.itemChars (j :: k :: items) =
          j.chars ++ ',' :: chars.itemChars (k :: items) := rfl
      rw [hchars, List.append_assoc, List.cons_append, hj _ (Numeral.unmarked_cons rfl _), put_item,
        run_itemComma, htail, List.reverse_cons, List.append_assoc, List.singleton_append]

/-- Members are taken up one by one from any state in which a key may come. -/
theorem run_members {members : List (Text × Json)} (hne : members ≠ [])
    (hk : ∀ m ∈ members, m.1.WellFormed) (hv : ∀ m ∈ members, m.2.Reads) {p : Progress}
    (done : List (Text × Json)) (frames : List Frame)
    (hp : ∀ key, p.step (.str key) = some ⟨.colon done key, frames⟩) (rest : List Char) :
    p.run (chars.memberChars members ++ '}' :: rest) =
      run (put (.obj (done.reverse ++ members)) frames) rest := by
  induction members generalizing p done with
  | nil => exact absurd rfl hne
  | cons m members ih =>
    obtain ⟨key, j⟩ := m
    have hkey : key.WellFormed := hk _ List.mem_cons_self
    have hj : j.Reads := hv _ List.mem_cons_self
    cases members with
    | nil =>
      rw [chars.memberChars, List.append_assoc, List.cons_append, run_str hkey (hp key),
        run_colon, hj _ (Numeral.unmarked_cons rfl _), put_member, run_membersEnd,
        List.reverse_cons]
    | cons m members =>
      -- behind a comma only a key may come, where at first the object might have ended
      have htail := ih (List.cons_ne_nil _ _) (fun m hm => hk m (List.mem_cons_of_mem _ hm))
        (fun m hm => hv m (List.mem_cons_of_mem _ hm)) ((key, j) :: done)
        (p := ⟨.key ((key, j) :: done), frames⟩) fun _ => rfl
      have hchars : chars.memberChars ((key, j) :: m :: members) =
          Text.chars key ++ ':' :: (j.chars ++ ',' :: chars.memberChars (m :: members)) := by
        rw [chars.memberChars, List.append_assoc]
        · rfl
        · exact fun h => nomatch h
      rw [hchars, List.append_assoc, List.cons_append, List.append_assoc, List.cons_append,
        run_str hkey (hp key), run_colon, hj _ (Numeral.unmarked_cons rfl _), put_member,
        run_memberComma, htail, List.reverse_cons, List.append_assoc, List.singleton_append]

end Progress

theorem itemChars_eq_append (j : Json) (items : List Json) :
    ∃ tail, chars.itemChars (j :: items) = j.chars ++ tail := by
  cases items with
  | nil => exact ⟨[], (List.append_nil _).symm⟩
  | cons k items => exact ⟨',' :: chars.itemChars (k :: items), rfl⟩

theorem reads_arr {items : List Json} (hw : ∀ j ∈ items, j.WellFormed)
    (h : ∀ j ∈ items, j.Reads) : (arr items).Reads := by
  intro frames rest _
  have hopen (text : List Char) :
      Progress.run ⟨.value, frames⟩ ('[' :: text) = Progress.run ⟨.firstItem, frames⟩ text :=
    Progress.run_token rfl rfl rfl
  rw [chars, List.append_assoc, List.cons_append, List.singleton_append, hopen]
  cases items with
  | nil => exact Progress.run_token rfl rfl rfl
  | cons j items =>
    obtain ⟨c, cs, hc, hb, hend⟩ := chars_eq_cons (hw j List.mem_cons_self)
    obtain ⟨tail, htail⟩ := itemChars_eq_append j items
    have hitems := Progress.run_items (List.cons_ne_nil j items) h [] frames rest
    rw [htail, hc, List.cons_append, List.cons_append] at hitems ⊢
    rw [Progress.run_firstItem frames hb hend]
    exact hitems

theorem reads_obj {members : List (Text × Json)} (hk : ∀ m ∈ members, m.1.WellFormed)
    (h : ∀ m ∈ members, m.2.Reads) : (obj members).Reads := by
  intro frames rest _
  have hopen (text : List Char) :
      Progress.run ⟨.value, frames⟩ ('{' :: text) = Progress.run ⟨.firstKey, frames⟩ text :=
    Progress.run_token rfl rfl rfl
  rw [chars, List.append_assoc, List.cons_append, List.singleton_append, hopen]
  cases members with
  | nil => exact Progress.run_token rfl rfl rfl
  | cons m members =>
    exact Progress.run_members (List.cons_ne_nil m members) hk h [] frames (fun _ => rfl) rest

/-- Every value is taken up, by induction on how it is put together. -/
theorem reads {j : Json} (hj : j.WellFormed) : j.Reads := by
  induction hj with
  | null => exact fun frames rest _ => Progress.run_token rfl rfl rfl
  | bool b => cases b <;> exact fun frames rest _ => Progress.run_token rfl rfl rfl
  | num h => exact fun frames rest hr => Progress.run_num h rfl hr
  | str h => exact fun frames rest _ => Progress.run_str h rfl rest
  | arr h ih => exact reads_arr h ih
  | obj hk _ ih => exact reads_obj hk ih

/-- A text that a value is rendered to is read as that value. -/
theorem parse?_render {j : Json} (hj : j.WellFormed) : parse? j.render = some j := by
  have hread := reads hj [] Numeral.unmarked_nil
  rw [List.append_nil, Progress.run_nil] at hread
  calc parse? j.render
    _ = (Progress.start.run j.chars).bind Progress.value? := by
      rw [parse?, render, String.toList_ofList, Progress.run, Option.bind_assoc]
      rfl
    _ = some j := by
      rw [Progress.start, hread]
      rfl

end DemandResponse.Json
