import DemandResponse.Proofs.Wire.Basic
import DemandResponse.Wire.Records

/-!
# The domain is read back from what is written of it

Every value that has a written form is read back from its text as itself. The one exception is a
proposal with a negative zero, which is read without the sign; its value and its places stay.
Settings that are read back are then checked like any others.
-/

namespace DemandResponse.Wire

open Matching (Activation Outcome Strategy)
open Negotiation (WorkProposal)

instance : Faithful Direction where
  restores d := ⟨Json.wellFormed_text _, by cases d <;> rfl⟩

instance : Faithful Strategy where
  restores s := ⟨Json.wellFormed_text _, by cases s <;> rfl⟩

instance : Faithful SiteId where
  restores id := {
    wellFormed := Json.wellFormed_text _
    decode? := by
      change ((Json.text id.text).text?).map SiteId.mk = some id
      rw [Json.text?_text, Option.map_some] }

instance : Faithful ParticipantId where
  restores id := {
    wellFormed := Json.wellFormed_text _
    decode? := by
      change ((Json.text id.text).text?).map ParticipantId.mk = some id
      rw [Json.text?_text, Option.map_some] }

instance : Faithful Offer where
  restores _ := .of_fields rfl (fun _ => rfl) (by decide) rfl (by simp) (by simp)

instance : Faithful Command where
  restores _ := .of_fields rfl (fun _ => rfl) (by decide) rfl (by simp) (by simp)

instance : Faithful Band where
  restores _ := .of_fields rfl (fun _ => rfl) (by decide) rfl (by simp) (by simp)

instance : Faithful Settings where
  restores _ := .of_fields rfl (fun _ => rfl) (by decide) rfl (by simp) (by simp)

instance : Faithful Activation where
  restores _ := .of_fields rfl (fun _ => rfl) (by decide) rfl (by simp) (by simp)

instance : Faithful Outcome where
  restores _ := .of_fields rfl (fun _ => rfl) (by decide) rfl (by simp) (by simp)

instance : Faithful Signal where
  restores _ := .of_fields rfl (fun _ => rfl) (by decide) rfl (by simp) (by simp)

/-- An absent mark is written as nothing, and no tick is. -/
theorem optional_mark (mark : Option Tick) : optional (some (encode mark)) = some mark :=
  optional_encode fun _ _ => nofun

theorem restores_proposal (p : WorkProposal) :
    Restores p { p with target := p.target.clearZero, valuation := p.valuation.clearZero } := by
  refine .of_fields rfl (fun _ => rfl) (by decide) rfl ?_ ?_
  · simp [wellFormed_encode_option, (restores_decimal _).wellFormed]
  · simp [optional_mark, required, (restores_decimal _).decode?]

/-- Settings are checked once they have been read. -/
theorem ofText_write (s : Settings) :
    Settings.ofText (write s) =
      if 1 ≤ s.frequency then .ok s else .error (.invalidFrequency s.frequency) := by
  have hle : 1 ≤ s.frequency ↔ s.frequency ≠ 0 := by
    rw [UInt32.le_iff_toNat_le, Ne, ← UInt32.toNat_inj]
    exact Nat.one_le_iff_ne_zero
  rw [Settings.ofText, readsBack s]
  simp only [Settings.validate, hle, ite_not]

/-- **What is written is read back.** All values of the domain are read back as they were, ids
with any text, offers and bands with any numbers, outcomes with any activations. So are
proposals, with or without marks and with every decimal at its own number of places, except that
a negative zero loses its sign; it stays the same in value. Settings are taken from their text
if their frequency is valid, and else are refused for it. -/
theorem written_read_back :
    ReadsBack Offer ∧ ReadsBack Command ∧ ReadsBack Band ∧ ReadsBack ParticipantId ∧
    ReadsBack SiteId ∧ ReadsBack Direction ∧ ReadsBack Strategy ∧ ReadsBack Settings ∧
    ReadsBack Activation ∧ ReadsBack Outcome ∧ ReadsBack Signal ∧
    (∀ p : WorkProposal, read? (write p) =
      some { p with target := p.target.clearZero, valuation := p.valuation.clearZero }) ∧
    (∀ d : Decimal, d.clearZero.same d ∧ d.clearZero.scale = d.scale ∧
      (d.clearZero = d ∨ d.negative = true ∧ d.coefficient = 0)) ∧
    (∀ s : Settings, Settings.ofText (write s) =
      if 1 ≤ s.frequency then .ok s else .error (.invalidFrequency s.frequency)) := by
  refine ⟨readsBack, readsBack, readsBack, readsBack, readsBack, readsBack, readsBack, readsBack,
    readsBack, readsBack, readsBack, ?proposals, ?decimals, ?settings⟩
  case proposals => exact fun p => (restores_proposal p).read?_eq
  case decimals => exact fun d => ⟨d.same_clearZero, rfl, d.clearZero_eq_or⟩
  case settings => exact ofText_write

end DemandResponse.Wire
