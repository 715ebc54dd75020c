import DemandResponse.Distributor
import Mathlib.Data.List.Nodup

/-!
# Names and registrations

What finding, replacing and polling do to a list of registrations in which no name comes twice:
a registration is found under its name, and all changes go registration by registration.
-/

namespace DemandResponse.Distributor

variable {P σ : Type} {d : Distributor P} {registrations : List (Registration P)}
  {r : Registration P} {id : ParticipantId}

theorem find?_of_not_mem (h : id ∉ d.participants) : d.find? id = none := by
  rw [find?, List.find?_eq_none]
  intro x hx hid
  exact h (List.mem_map.mpr ⟨x, hx, of_decide_eq_true hid⟩)

theorem find?_of_mem (hnodup : d.participants.Nodup) (hr : r ∈ d.registrations) :
    d.find? r.id = some r := by
  obtain ⟨x, hx⟩ : ∃ x, d.find? r.id = some x :=
    Option.isSome_iff_exists.mp (List.find?_isSome.mpr ⟨r, hr, decide_eq_true rfl⟩)
  have hid : x.id = r.id := by simpa using List.find?_some hx
  rw [hx, List.inj_on_of_nodup_map hnodup (List.mem_of_find?_eq_some hx) hr hid]

theorem contains_iff : d.contains id = true ↔ id ∈ d.participants := by
  rw [contains, find?, List.find?_isSome, participants, List.mem_map]
  simp only [decide_eq_true_eq]

theorem registration_of_not_mem (h : id ∉ d.participants) :
    d.registration id = .error (.unknown id) := by
  rw [registration, find?_of_not_mem h]

theorem registration_of_mem (hnodup : d.participants.Nodup) (hr : r ∈ d.registrations) :
    d.registration r.id = .ok r := by
  rw [registration, find?_of_mem hnodup hr]

/-- Where no name comes twice, replacing a registration changes the one of its name. -/
theorem replace_eq_map (hnodup : (registrations.map (·.id)).Nodup) (hr : r ∈ registrations)
    (f : Registration P → Registration P) (hid : (f r).id = r.id) :
    replace (f r) registrations = registrations.map fun x => if x.id = r.id then f x else x := by
  induction registrations with
  | nil => cases hr
  | cons first rest ih =>
    have hfirst : first.id ∉ rest.map (·.id) := (List.nodup_cons.mp hnodup).1
    rw [replace, hid, List.map_cons]
    rcases List.mem_cons.mp hr with rfl | hmem
    · have hothers : ∀ x ∈ rest, (if x.id = r.id then f x else x) = x := by
        intro x hx
        have hmem : x.id ∈ rest.map (·.id) := List.mem_map_of_mem hx
        have hne : x.id ≠ r.id := fun h => hfirst (h ▸ hmem)
        exact if_neg hne
      rw [if_pos rfl, if_pos rfl, List.map_congr_left hothers, List.map_id']
    · have hid' : r.id ∈ rest.map (·.id) := List.mem_map_of_mem hmem
      have hne : first.id ≠ r.id := fun h => hfirst (h.symm ▸ hid')
      rw [if_neg hne, if_neg hne, ih (List.nodup_cons.mp hnodup).2 hmem]

theorem updateBand_of_mem (hnodup : d.participants.Nodup) (hr : r ∈ d.registrations)
    (band : Band) :
    d.updateBand r.id band =
      .ok ⟨d.registrations.map fun x => if x.id = r.id then { x with band } else x⟩ := by
  rw [updateBand, registration_of_mem hnodup hr]
  exact congrArg (fun l => Except.ok (Distributor.mk l))
    (replace_eq_map hnodup hr (fun x => { x with band }) rfl)

theorem access_of_mem {α : Type} (hnodup : d.participants.Nodup) (hr : r ∈ d.registrations)
    (use : P → α × P) :
    d.access r.id use =
      .ok ((use r.participant).1, ⟨d.registrations.map fun x =>
        if x.id = r.id then { x with participant := (use x.participant).2 } else x⟩) := by
  rw [access, registration_of_mem hnodup hr]
  exact congrArg (fun l => Except.ok ((use r.participant).1, Distributor.mk l))
    (replace_eq_map hnodup hr (fun x => { x with participant := (use x.participant).2 }) rfl)

variable [Participant P σ] {world : σ}

/-- A poll that no participant breaks off reaches all of them. -/
theorem pollEach_eq {band : P → Band} {next : P → P}
    (h : ∀ r ∈ registrations, Participant.capacity r.participant world =
      (.ok (band r.participant), next r.participant)) :
    pollEach world registrations =
      (.ok (), registrations.map fun r =>
        { r with participant := next r.participant, band := band r.participant }) := by
  induction registrations with
  | nil => rfl
  | cons r rest ih =>
    rw [pollEach, h r List.mem_cons_self, ih fun s hs => h s (List.mem_cons_of_mem r hs)]
    rfl

/-- A poll that a participant breaks off has reached those before it. -/
theorem pollEach_broken {band : P → Band} {next : P → P} {before rest : List (Registration P)}
    {fault : Fault} {participant : P}
    (hbefore : ∀ s ∈ before, Participant.capacity s.participant world =
      (.ok (band s.participant), next s.participant))
    (hr : Participant.capacity r.participant world = (.error fault, participant)) :
    pollEach world (before ++ r :: rest) =
      (.error fault, (before.map fun s =>
        { s with participant := next s.participant, band := band s.participant }) ++
          { r with participant } :: rest) := by
  induction before with
  | nil =>
    rw [List.nil_append, pollEach, hr]
    rfl
  | cons s before ih =>
    rw [List.cons_append, pollEach, hbefore s List.mem_cons_self,
      ih fun t ht => hbefore t (List.mem_cons_of_mem s ht)]
    rfl

end DemandResponse.Distributor
