import DemandResponse.Matching.Odometer
import Mathlib.Data.List.Chain
import Mathlib.Data.List.Forall2
import Mathlib.Data.List.Range

/-!
# The order of the cursors

`cursors` lists every position of the wheels without any stepping. A walk of the odometer from zero
runs through exactly this list: it starts at the head, each cursor is followed by the next one, and
the last one turns every wheel back to zero.
-/

namespace DemandResponse.Matching.Odometer

/-- The positions that differ in the first wheel only. -/
def turns (size : Nat) (rest : List Nat) : List (List Nat) :=
  (List.range (size + 1)).map (· :: rest)

/-- All positions of some wheels, the first wheel turning fastest. -/
def cursors : (sizes : List Nat) → List (List Nat)
  | [] => [[]]
  | size :: sizes => (cursors sizes).flatMap (turns size)

/-- The odometer moves from the one cursor to the other. -/
def Next (sizes a b : List Nat) : Prop := advance sizes a = (true, b)

/-- Advancing from a cursor until the odometer stops: the cursors that it moves to, and the wheels
as the stop leaves them. -/
inductive Walk (sizes : List Nat) : List Nat → List (List Nat) → List Nat → Prop
  | stop {cursor left : List Nat} (h : advance sizes cursor = (false, left)) :
      Walk sizes cursor [] left
  | move {cursor next left : List Nat} {passed : List (List Nat)}
      (h : advance sizes cursor = (true, next)) (rest : Walk sizes next passed left) :
      Walk sizes cursor (next :: passed) left

namespace Walk

variable {sizes cursor left : List Nat} {passed : List (List Nat)}

/-- There is one way to go on from a cursor. -/
theorem unique (h : Walk sizes cursor passed left) {passed' : List (List Nat)} {left' : List Nat}
    (h' : Walk sizes cursor passed' left') : passed' = passed ∧ left' = left := by
  induction h generalizing passed' with
  | stop hs =>
    cases h' with
    | stop hs' => exact ⟨rfl, (Prod.mk.inj (hs'.symm.trans hs)).2⟩
    | move hm' _ => cases hm'.symm.trans hs
  | move hm _ ih =>
    cases h' with
    | stop hs' => cases hs'.symm.trans hm
    | move hm' hw' =>
      obtain rfl := (Prod.mk.inj (hm'.symm.trans hm)).2
      obtain ⟨rfl, rfl⟩ := ih hw'
      exact ⟨rfl, rfl⟩

/-- A chain of moves up to a stop is a walk. -/
theorem of_isChain {last : List Nat} (hc : (cursor :: passed).IsChain (Next sizes))
    (hl : (cursor :: passed).getLast? = some last) (hs : advance sizes last = (false, left)) :
    Walk sizes cursor passed left := by
  induction passed generalizing cursor with
  | nil =>
    obtain rfl : cursor = last := Option.some.inj hl
    exact .stop hs
  | cons next passed ih =>
    obtain ⟨hm, hrest⟩ := List.isChain_cons_cons.mp hc
    rw [List.getLast?_cons_cons] at hl
    exact .move hm (ih hrest hl)

end Walk

/-- The cursors are the positions at which no wheel is beyond its end. -/
theorem mem_cursors_iff {sizes cursor : List Nat} :
    cursor ∈ cursors sizes ↔ List.Forall₂ (· ≤ ·) cursor sizes := by
  induction sizes generalizing cursor with
  | nil => rw [cursors, List.mem_singleton, List.forall₂_nil_right_iff]
  | cons size sizes ih =>
    rw [cursors, List.mem_flatMap, List.forall₂_cons_right_iff]
    constructor
    · rintro ⟨rest, hrest, hc⟩
      obtain ⟨k, hk, rfl⟩ := List.mem_map.mp hc
      exact ⟨k, rest, Nat.le_of_lt_succ (List.mem_range.mp hk), ih.mp hrest, rfl⟩
    · rintro ⟨k, rest, hk, hrest, rfl⟩
      exact ⟨rest, ih.mpr hrest, List.mem_map.mpr ⟨k, List.mem_range.mpr (by omega), rfl⟩⟩

theorem turns_eq_cons (size : Nat) (rest : List Nat) :
    ∃ more, turns size rest = (0 :: rest) :: more := by
  unfold turns
  rw [List.range_succ_eq_map, List.map_cons]
  exact ⟨_, rfl⟩

theorem getLast?_turns (size : Nat) (rest : List Nat) :
    (turns size rest).getLast? = some (size :: rest) := by
  rw [turns, List.range_succ, List.map_append]
  exact List.getLast?_concat

theorem advance_turn {size k : Nat} (hk : k < size) (sizes rest : List Nat) :
    Next (size :: sizes) (k :: rest) ((k + 1) :: rest) := by
  unfold Next
  rw [advance, if_pos hk]

/-- A wheel at its end returns to zero and hands on to the wheels behind it. -/
theorem advance_carry (size : Nat) (sizes rest : List Nat) :
    advance (size :: sizes) (size :: rest) =
      ((advance sizes rest).1, 0 :: (advance sizes rest).2) := by
  rw [advance, if_neg (Nat.lt_irrefl size)]

theorem isChain_turns (size : Nat) (sizes rest : List Nat) :
    (turns size rest).IsChain (Next (size :: sizes)) := by
  rw [turns, List.isChain_map, List.isChain_range]
  intro k hk
  exact advance_turn (by omega) sizes rest

/-- Whole turns of the first wheel, joined at the moves of the wheels behind it. -/
theorem isChain_flatMap_turns (size : Nat) {sizes : List Nat} {l : List (List Nat)}
    (h : l.IsChain (Next sizes)) : (l.flatMap (turns size)).IsChain (Next (size :: sizes)) := by
  induction h with
  | nil => exact .nil
  | singleton a =>
    rw [List.flatMap_singleton]
    exact isChain_turns size sizes a
  | @cons_cons a b l hab _ ih =>
    rw [List.flatMap_cons]
    refine (isChain_turns size sizes a).append ih ?_
    intro x hx y hy
    obtain ⟨more, hm⟩ := turns_eq_cons size b
    rw [getLast?_turns, Option.mem_some_iff] at hx
    rw [List.flatMap_cons, hm, List.cons_append, List.head?_cons, Option.mem_some_iff] at hy
    obtain rfl := hx
    obtain rfl := hy
    unfold Next at hab ⊢
    rw [advance_carry, hab]

theorem cursors_eq_cons (sizes : List Nat) : ∃ more, cursors sizes = start sizes :: more := by
  induction sizes with
  | nil => exact ⟨[], rfl⟩
  | cons size sizes ih =>
    obtain ⟨more, hm⟩ := ih
    obtain ⟨turned, ht⟩ := turns_eq_cons size (start sizes)
    rw [cursors, hm, List.flatMap_cons, ht, List.cons_append]
    exact ⟨_, rfl⟩

/-- Each cursor but the last is followed by the cursor that the odometer moves to. -/
theorem isChain_cursors (sizes : List Nat) : (cursors sizes).IsChain (Next sizes) := by
  induction sizes with
  | nil => exact .singleton []
  | cons size sizes ih => exact isChain_flatMap_turns size ih

/-- From the last cursor all wheels return to zero, which is not a move. -/
theorem advance_getLast (sizes : List Nat) :
    ∃ last, (cursors sizes).getLast? = some last ∧ advance sizes last = (false, start sizes) := by
  induction sizes with
  | nil => exact ⟨[], rfl, rfl⟩
  | cons size sizes ih =>
    obtain ⟨last, hlast, ha⟩ := ih
    obtain ⟨front, hf⟩ := List.getLast?_eq_some_iff.mp hlast
    refine ⟨size :: last, ?_, ?_⟩
    · rw [cursors, hf, List.flatMap_append, List.flatMap_singleton, List.getLast?_append,
        getLast?_turns, Option.some_or]
    · rw [advance_carry, ha]
      rfl

/-- The walk from zero passes the cursors in their order and comes back to zero. -/
theorem walk_start (sizes : List Nat) :
    ∃ passed, cursors sizes = start sizes :: passed ∧
      Walk sizes (start sizes) passed (start sizes) := by
  obtain ⟨passed, hcursors⟩ := cursors_eq_cons sizes
  obtain ⟨last, hlast, hstop⟩ := advance_getLast sizes
  have hc := isChain_cursors sizes
  rw [hcursors] at hc hlast
  exact ⟨passed, hcursors, .of_isChain hc hlast hstop⟩

end DemandResponse.Matching.Odometer
