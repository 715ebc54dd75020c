import DemandResponse.Proofs.Matching.BestFit
import Mathlib.Algebra.BigOperators.Group.List.Basic
import Mathlib.Data.List.Nodup

/-!
# The tour of the odometer

A cursor is read as a mixed-radix number whose lowest digit is the first wheel. Advanced again and
again from zero, the odometer counts: it passes every position once, in the order of the readings,
and stops with all wheels at zero again. The search for the best fit takes this tour, and its
length is the search space, as far as that number can be stated.
-/

namespace DemandResponse.Matching

namespace Odometer

/-- What the wheels show as a number. The wheel of a size has one digit more than its size. -/
def reading : (sizes cursor : List Nat) → Nat
  | size :: sizes, k :: cursor => k + (size + 1) * reading sizes cursor
  | _, _ => 0

/-- How many positions some wheels have. -/
def positions (sizes : List Nat) : Nat := (sizes.map (· + 1)).prod

theorem positions_cons (size : Nat) (sizes : List Nat) :
    positions (size :: sizes) = (size + 1) * positions sizes := by
  rw [positions, List.map_cons, List.prod_cons, positions]

theorem positions_pos (sizes : List Nat) : 0 < positions sizes := by
  induction sizes with
  | nil => exact Nat.one_pos
  | cons size sizes ih =>
    rw [positions_cons]
    exact Nat.mul_pos (Nat.succ_pos size) ih

theorem positions_perm {sizes others : List Nat} (h : others.Perm sizes) :
    positions others = positions sizes :=
  (h.map (· + 1)).prod_eq

/-- Counting in blocks of a fixed length. -/
theorem range_mul (b n : Nat) :
    List.range (b * n) = (List.range n).flatMap fun q => (List.range b).map (· + b * q) := by
  induction n with
  | zero => rfl
  | succ n ih =>
    rw [Nat.mul_succ, List.range_add, ih, List.range_succ, List.flatMap_append,
      List.flatMap_singleton]
    congr 2
    funext k
    exact Nat.add_comm _ _

/-- The cursors stand in the order of their readings, which leave out no number. -/
theorem map_reading_cursors (sizes : List Nat) :
    (cursors sizes).map (reading sizes) = List.range (positions sizes) := by
  induction sizes with
  | nil => rfl
  | cons size sizes ih =>
    rw [positions_cons, range_mul, ← ih, List.flatMap_map, cursors, List.map_flatMap]
    congr 1
    funext rest
    rw [turns, List.map_map]
    rfl

theorem nodup_cursors (sizes : List Nat) : (cursors sizes).Nodup := by
  apply List.Nodup.of_map (reading sizes)
  rw [map_reading_cursors]
  exact List.nodup_range

theorem length_cursors (sizes : List Nat) : (cursors sizes).length = positions sizes := by
  rw [← List.length_map (reading sizes), map_reading_cursors, List.length_range]

/-- Factors are at least one, so a product that fits has no part that does not. -/
theorem foldlM_searchSpace (sizes : List Nat) {n : Nat} (hn : n < spaceLimit) :
    sizes.foldlM (fun n size =>
        if n * (size + 1) < spaceLimit then some (n * (size + 1)) else none) n =
      if n * positions sizes < spaceLimit then some (n * positions sizes) else none := by
  induction sizes generalizing n with
  | nil =>
    have h : n * positions [] = n := Nat.mul_one n
    rw [h, if_pos hn]
    rfl
  | cons size sizes ih =>
    rw [List.foldlM_cons, positions_cons, ← Nat.mul_assoc]
    by_cases h : n * (size + 1) < spaceLimit
    · rw [if_pos h]
      exact ih h
    · have hle := Nat.le_mul_of_pos_right (n * (size + 1)) (positions_pos sizes)
      rw [if_neg h, if_neg (fun hlt => h (Nat.lt_of_le_of_lt hle hlt))]
      rfl

/-- The search space is the number of positions, as long as that is below the limit. -/
theorem searchSpace_eq (sizes : List Nat) :
    searchSpace sizes =
      if positions sizes < spaceLimit then some (positions sizes) else none := by
  have h := foldlM_searchSpace sizes (show 1 < spaceLimit by decide)
  rwa [Nat.one_mul] at h

end Odometer

open BestFit Odometer

/-- Over the wheels of any sites the odometer walks from zero through every position, each once,
in the order of the readings, and stops at zero. The search for the best fit ranks what the walk
passes. With the start there are as many positions as ways to choose for every site, and their
number is the search space if it is at most `2 ^ 128 - 1`, in whichever order the sites stand. -/
theorem odometer_tour (sites : List Candidates) :
    (∃ passed,
      (∀ moves left, Walk (sizes sites) (start (sizes sites)) moves left ↔
        moves = passed ∧ left = start (sizes sites)) ∧
      (∀ cursor, cursor ∈ start (sizes sites) :: passed ↔
        List.Forall₂ (fun k c => k ≤ c.offers.length) cursor sites) ∧
      (start (sizes sites) :: passed).Nodup ∧
      (start (sizes sites) :: passed).map (reading (sizes sites)) =
        List.range (sites.map fun c => c.offers.length + 1).prod ∧
      (start (sizes sites) :: passed).length = (sites.map fun c => c.offers.length + 1).prod ∧
      ∀ target, best target sites = passed.foldl (challenge target sites)
        ⟨⟨Power.distance target 0, 0, []⟩, start (sizes sites)⟩) ∧
    searchSpace (sizes sites) =
      (if (sites.map fun c => c.offers.length + 1).prod ≤ 2 ^ 128 - 1 then
        some (sites.map fun c => c.offers.length + 1).prod
      else none) ∧
    ∀ others, others.Perm sites → searchSpace (sizes others) = searchSpace (sizes sites) := by
  have hprod : (sites.map fun c => c.offers.length + 1).prod = positions (sizes sites) := by
    rw [positions, sizes, List.map_map]
    rfl
  have hlimit (n : Nat) : n ≤ 2 ^ 128 - 1 ↔ n < spaceLimit := by
    unfold spaceLimit
    omega
  obtain ⟨passed, hcursors, hwalk⟩ := walk_start (sizes sites)
  rw [hprod]
  refine ⟨⟨passed, ?_, ?_, ?_, ?_, ?_, ?_⟩, ?_, ?_⟩
  · intro moves left
    constructor
    · exact hwalk.unique
    · rintro ⟨rfl, rfl⟩
      exact hwalk
  · intro cursor
    rw [← hcursors, mem_cursors_iff, sizes, List.forall₂_map_right_iff]
  · rw [← hcursors]
    exact nodup_cursors _
  · rw [← hcursors]
    exact map_reading_cursors _
  · rw [← hcursors]
    exact length_cursors _
  · intro target
    exact search_eq_foldl target sites hwalk _
  · rw [searchSpace_eq]
    simp only [hlimit]
  · intro others hperm
    have hsizes : (sizes others).Perm (sizes sites) := hperm.map _
    rw [searchSpace_eq, searchSpace_eq, positions_perm hsizes]

/-- The second wheel cannot turn, so a full turn of the first one is carried over it. -/
def gap : List Candidates :=
  [⟨⟨"north"⟩, [⟨1, 5, .up, 0, 0, 0⟩, ⟨2, 6, .down, 0, 0, 0⟩]⟩, ⟨⟨"west"⟩, []⟩,
    ⟨⟨"south"⟩, [⟨3, 7, .up, 0, 0, 0⟩]⟩]

theorem odometer_tour_gap :
    gap.reverse.Perm gap ∧
      (∃ passed, Walk [2, 0, 1] [0, 0, 0] passed [0, 0, 0] ∧ ([0, 0, 0] :: passed).Nodup ∧
        ([0, 0, 0] :: passed).map (reading [2, 0, 1]) = [0, 1, 2, 3, 4, 5]) ∧
      searchSpace (sizes gap) = some 6 ∧ searchSpace (sizes gap.reverse) = some 6 := by
  have hperm : gap.reverse.Perm gap := gap.reverse_perm
  obtain ⟨⟨passed, hwalk, _, hnodup, hreading, _⟩, hspace, horder⟩ := odometer_tour gap
  exact ⟨hperm, ⟨passed, (hwalk passed _).mpr ⟨rfl, rfl⟩, hnodup, hreading⟩, hspace,
    (horder gap.reverse hperm).trans hspace⟩

end DemandResponse.Matching
