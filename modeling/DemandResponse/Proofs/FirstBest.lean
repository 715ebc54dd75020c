import Mathlib.Data.List.Basic

/-!
# The first of the best

A single pass that replaces its best only by something strictly better ends at the first of the
best elements, whatever the pattern of ties. `StrictRanking` is what the comparison must satisfy;
nothing is assumed about elements that tie.
-/

namespace DemandResponse

variable {α β : Type}

/-- A strict comparison under which any third element is told apart from one of two that differ. -/
structure StrictRanking (beats : α → α → Prop) : Prop where
  asymm : ∀ {a b}, beats a b → ¬ beats b a
  cotrans : ∀ {a b}, beats a b → ∀ c, beats a c ∨ beats c b

namespace StrictRanking

variable {beats : α → α → Prop}

theorem trans (h : StrictRanking beats) {a b c : α} (hab : beats a b) (hbc : beats b c) :
    beats a c := by
  rcases h.cotrans hab c with hac | hcb
  · exact hac
  · exact absurd hbc (h.asymm hcb)

/-- Elements may be ranked by something that they have. -/
theorem comap (h : StrictRanking beats) (f : β → α) :
    StrictRanking fun x y => beats (f x) (f y) where
  asymm hxy := h.asymm hxy
  cotrans hxy z := h.cotrans hxy (f z)

end StrictRanking

/-- The element beats everything before it in the list, and nothing behind it beats it. -/
def FirstBest (beats : α → α → Prop) (l : List α) (x : α) : Prop :=
  ∃ before after, l = before ++ x :: after ∧
    (∀ a ∈ before, beats x a) ∧ ∀ a ∈ after, ¬ beats a x

namespace FirstBest

variable {beats : α → α → Prop} {l : List α} {x : α}

theorem mem (h : FirstBest beats l x) : x ∈ l := by
  obtain ⟨before, after, rfl, _, _⟩ := h
  exact List.mem_append_right before List.mem_cons_self

/-- Nothing in the list beats the first of the best. -/
theorem unbeaten (hr : StrictRanking beats) (h : FirstBest beats l x) {a : α} (ha : a ∈ l) :
    ¬ beats a x := by
  obtain ⟨before, after, rfl, hbefore, hafter⟩ := h
  rcases List.mem_append.mp ha with hb | hc
  · exact hr.asymm (hbefore a hb)
  · rcases List.mem_cons.mp hc with rfl | hc
    · exact fun hx => hr.asymm hx hx
    · exact hafter a hc

/-- There is only one first of the best. -/
theorem eq {y : α} (hx : FirstBest beats l x) (hy : FirstBest beats l y) : x = y := by
  obtain ⟨before, after, rfl, hbefore, hafter⟩ := hx
  obtain ⟨front, back, heq, hfront, hback⟩ := hy
  rcases List.append_eq_append_iff.mp heq with ⟨middle, rfl, hrest⟩ | ⟨middle, rfl, hrest⟩
  · rcases List.cons_eq_append_iff.mp hrest with ⟨rfl, hcons⟩ | ⟨middle, rfl, rfl⟩
    · exact (List.cons.inj hcons).1.symm
    · -- the first of the two stands before the second, which is to beat it and must not
      have hbeats := hfront x (List.mem_append_right before List.mem_cons_self)
      exact absurd hbeats (hafter y (List.mem_append_right middle List.mem_cons_self))
  · rcases List.cons_eq_append_iff.mp hrest with ⟨rfl, hcons⟩ | ⟨middle, rfl, rfl⟩
    · exact (List.cons.inj hcons).1
    · have hbeats := hbefore y (List.mem_append_right front List.mem_cons_self)
      exact absurd hbeats (hback x (List.mem_append_right middle List.mem_cons_self))

/-- Only the comparisons within the list matter. -/
theorem congr {beats' : α → α → Prop} (h : FirstBest beats l x)
    (hsame : ∀ a ∈ l, ∀ b ∈ l, beats a b ↔ beats' a b) : FirstBest beats' l x := by
  obtain ⟨before, after, rfl, hbefore, hafter⟩ := h
  have hx : x ∈ before ++ x :: after := List.mem_append_right before List.mem_cons_self
  refine ⟨before, after, rfl, fun a ha => ?_, fun a ha => ?_⟩
  · exact (hsame x hx a (List.mem_append_left _ ha)).mp (hbefore a ha)
  · exact mt (hsame a (List.mem_append_right before (List.mem_cons_of_mem x ha)) x hx).mpr
      (hafter a ha)

theorem map {f : β → α} {l : List β} {y : β}
    (h : FirstBest (fun a b => beats (f a) (f b)) l y) : FirstBest beats (l.map f) (f y) := by
  obtain ⟨before, after, rfl, hbefore, hafter⟩ := h
  refine ⟨before.map f, after.map f, by rw [List.map_append, List.map_cons], ?_, ?_⟩
  · intro a ha
    obtain ⟨b, hb, rfl⟩ := List.mem_map.mp ha
    exact hbefore b hb
  · intro a ha
    obtain ⟨b, hb, rfl⟩ := List.mem_map.mp ha
    exact hafter b hb

/-- A new first element that loses to the old one changes nothing. -/
theorem cons_of_beats (hr : StrictRanking beats) {a b : α} (h : FirstBest beats (b :: l) x)
    (hb : beats b a) : FirstBest beats (a :: b :: l) x := by
  obtain ⟨before, after, he, hbefore, hafter⟩ := h
  refine ⟨a :: before, after, by rw [he, List.cons_append], ?_, hafter⟩
  intro c hc
  rcases List.mem_cons.mp hc with rfl | hc
  · cases before with
    | nil =>
      obtain ⟨rfl, _⟩ := List.cons.inj he
      exact hb
    | cons d before =>
      obtain ⟨rfl, _⟩ := List.cons.inj he
      exact hr.trans (hbefore b List.mem_cons_self) hb
  · exact hbefore c hc

/-- Neither does a new second element that does not beat the first. -/
theorem cons_cons_of_not_beats (hr : StrictRanking beats) {a b : α}
    (h : FirstBest beats (a :: l) x) (hb : ¬ beats b a) : FirstBest beats (a :: b :: l) x := by
  obtain ⟨before, after, he, hbefore, hafter⟩ := h
  cases before with
  | nil =>
    obtain ⟨rfl, rfl⟩ := List.cons.inj he
    refine ⟨[], b :: l, rfl, hbefore, ?_⟩
    intro c hc
    rcases List.mem_cons.mp hc with rfl | hc
    · exact hb
    · exact hafter c hc
  | cons d before =>
    obtain ⟨rfl, rfl⟩ := List.cons.inj he
    refine ⟨a :: b :: before, after, rfl, ?_, hafter⟩
    have ha := hbefore a List.mem_cons_self
    intro c hc
    rcases List.mem_cons.mp hc with rfl | hc
    · exact ha
    · rcases List.mem_cons.mp hc with rfl | hc
      · exact (hr.cotrans ha c).resolve_right hb
      · exact hbefore c (List.mem_cons_of_mem a hc)

end FirstBest

/-- The pass itself: the first element is the best to begin with. -/
theorem firstBest_foldl {beats : α → α → Prop} [DecidableRel beats] (hr : StrictRanking beats)
    (a : α) (l : List α) :
    FirstBest beats (a :: l) (l.foldl (fun best x => if beats x best then x else best) a) := by
  induction l generalizing a with
  | nil => exact ⟨[], [], rfl, by simp, by simp⟩
  | cons x l ih =>
    rw [List.foldl_cons]
    by_cases hx : beats x a
    · rw [if_pos hx]
      exact (ih x).cons_of_beats hr hx
    · rw [if_neg hx]
      exact (ih a).cons_cons_of_not_beats hr hx

end DemandResponse
