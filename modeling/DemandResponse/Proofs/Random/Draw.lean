import DemandResponse.Random.Sampling

/-!
# What draws give

A generator keeps to ranges if what it gives from a range lies in the range, whatever its state.
The standard generator does, however often its raw values are turned down. From any state a draw
then gives something, and what a draw of several steps gives follows from what its steps give.
-/

namespace DemandResponse.Random

variable {ρ α β : Type}

/-- A number that is drawn from a range lies in the range. -/
def Generator.Ranged (g : Generator ρ) : Prop :=
  ∀ (width : Width) {low high : Int} (r : ρ), 0 ≤ low → low ≤ high → high < width.size →
    low ≤ (g.between width low high r).1 ∧ (g.between width low high r).1 ≤ high

/-- A raw value that is taken as it is lies in the range from zero on that has all raw values. -/
theorem wrap_eq {width : Width} {high : Int} {raw : Nat} (h : raw < width.size)
    (hhigh : high + 1 = width.size) : wrap width high raw = raw := if_pos (by omega)

theorem standard_ranged : standard.Ranged := by
  intro width low high s hlow hle hhigh
  change low ≤ (between width low high s).1 ∧ (between width low high s).1 ≤ high
  rw [between]
  dsimp only
  split
  · next hall =>
    have hraw := (width.draw s).1.isLt
    rw [wrap_eq hraw (by omega)]
    omega
  · have hoffset := (upTo width (high - low).toNat s).1.property
    omega

/-- From every state the draw gives a result, which has a property. -/
def Yields (d : Draw ρ α) (Q : α → Prop) : Prop := ∀ r, ∃ a r', d r = .ok (a, r') ∧ Q a

theorem Yields.pure {a : α} {Q : α → Prop} (h : Q a) : Yields (pure a : Draw ρ α) Q :=
  fun _ => ⟨a, _, rfl, h⟩

theorem Yields.bind {d : Draw ρ α} {next : α → Draw ρ β} {Q : α → Prop} {R : β → Prop}
    (h : Yields d Q) (hnext : ∀ a, Q a → Yields (next a) R) : Yields (d >>= next) R := by
  intro r
  obtain ⟨a, r', hd, ha⟩ := h r
  obtain ⟨b, r'', hb, hR⟩ := hnext a ha r'
  refine ⟨b, r'', ?_, hR⟩
  change d r >>= _ = _
  rw [hd]
  exact hb

/-- What needs no randomness. -/
theorem Yields.lift {x : Except Fault α} {a : α} {Q : α → Prop} (hx : x = .ok a) (h : Q a) :
    Yields (liftM x : Draw ρ α) Q := by
  intro r
  subst hx
  exact ⟨a, r, rfl, h⟩

theorem yields_flip (g : Generator ρ) : Yields g.flip fun _ => True :=
  fun _ => ⟨_, _, rfl, trivial⟩

theorem Generator.Ranged.yields_pick {g : Generator ρ} (hg : g.Ranged) {width : Width}
    {low high : Int} (hlow : 0 ≤ low) (hle : low ≤ high) (hhigh : high < width.size) :
    Yields (g.pick width low high) fun x => low ≤ x ∧ x ≤ high :=
  fun r => ⟨_, _, if_neg (Int.not_lt.mpr hle), hg width r hlow hle hhigh⟩

end DemandResponse.Random
