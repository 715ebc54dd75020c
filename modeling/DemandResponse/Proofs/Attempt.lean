import DemandResponse.Fault

/-!
# Attempts in a row

An attempt that goes on where another one ended. An operation of several steps is stated with
`andThen`, and what is known of its answer is traced back to the answers of the steps.
-/

namespace DemandResponse

variable {α β γ σ : Type}

/-- Continue with an answer in the world that it left. A fault ends everything. -/
def andThen (a : Attempt σ α) (next : α → σ → Attempt σ β) : Attempt σ β :=
  match a with
  | (.ok x, w) => next x w
  | (.error fault, w) => (.error fault, w)

theorem andThen_of_ok {a : Attempt σ α} {x : α} {w : σ} (h : a = (.ok x, w))
    (next : α → σ → Attempt σ β) : andThen a next = next x w := by
  rw [h]
  rfl

theorem andThen_assoc (a : Attempt σ α) (f : α → σ → Attempt σ β) (g : β → σ → Attempt σ γ) :
    andThen (andThen a f) g = andThen a fun x w => andThen (f x w) g := by
  obtain ⟨x | x, w⟩ := a <;> rfl

theorem andThen_eq_ok_iff {a : Attempt σ α} {next : α → σ → Attempt σ β} {y : β} {w' : σ} :
    andThen a next = (.ok y, w') ↔ ∃ x w, a = (.ok x, w) ∧ next x w = (.ok y, w') := by
  obtain ⟨fault | x, w⟩ := a
  · constructor
    · intro h; cases h
    · rintro ⟨x, w, h, _⟩; cases h
  · constructor
    · intro h; exact ⟨x, w, rfl, h⟩
    · rintro ⟨x', w', h, hn⟩
      obtain ⟨hx, rfl⟩ := Prod.mk.inj h
      obtain rfl := Except.ok.inj hx
      exact hn

theorem andThen_eq_error {a : Attempt σ α} {next : α → σ → Attempt σ β} {fault : Fault} {w' : σ}
    (h : andThen a next = (.error fault, w')) :
    a = (.error fault, w') ∨ ∃ x w, a = (.ok x, w) ∧ next x w = (.error fault, w') := by
  obtain ⟨f | x, w⟩ := a
  · obtain ⟨hf, rfl⟩ := Prod.mk.inj h
    obtain rfl := Except.error.inj hf
    exact Or.inl rfl
  · exact Or.inr ⟨x, w, rfl, h⟩

theorem andThen_congr {a : Attempt σ α} {f g : α → σ → Attempt σ β}
    (h : ∀ x w, a = (.ok x, w) → f x w = g x w) : andThen a f = andThen a g := by
  obtain ⟨_ | x, w⟩ := a
  · rfl
  · exact h x w rfl

end DemandResponse
