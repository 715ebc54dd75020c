import DemandResponse.Proofs.Book.Listing
import DemandResponse.Proofs.Distributor.Operations

/-!
# What a distributor owes to its history

Registrations, new bands, polls, signals and visits to a participant may come in any order. Who is
registered, which band is on record, and what a participant has received and how often it was
asked follow from what has happened alone. A history lists the latest operation first.
-/

namespace DemandResponse

namespace Distributor

open Apportionment (capacity)

variable {P σ : Type} [Participant P σ]

/-- What has been done, the latest first. -/
abbrev History (P σ : Type) := List (Operation P σ)

def after : History P σ → Distributor P
  | [] => .empty
  | op :: past => ((after past).perform op).2

/-- The part of some signals that is meant for one participant. -/
def partFor (id : ParticipantId) (signals : List Signal) : List (Tick × Power) :=
  (signals.filter fun s => s.participant = id).map fun s => (s.tick, s.value)

namespace History

/-- The names that were put forward for registration, the earliest first. -/
def proposed : History P σ → List ParticipantId
  | [] => []
  | .register id _ _ :: past => proposed past ++ [id]
  | _ :: past => proposed past

/-- The names that were registered, each where it came first. -/
def names (past : History P σ) : List ParticipantId := (proposed past).eraseDups

/-- The participant that was registered first under a name, as it was then. -/
def enrolled? : History P σ → ParticipantId → Option P
  | [], _ => none
  | .register name participant _ :: past, id =>
    (enrolled? past id).or (if name = id then some participant else none)
  | _ :: past, id => enrolled? past id

/-- What a participant answers to a poll that comes after a history. -/
def polled (past : History P σ) (world : σ) (id : ParticipantId) : Option Band :=
  ((after past).find? id).bind fun r => (Participant.capacity r.participant world).1.toOption

/-- The band that was last registered, announced or polled. -/
def band? : History P σ → ParticipantId → Option Band
  | [], _ => none
  | .register name _ band :: past, id => (band? past id).or (if name = id then some band else none)
  | .updateBand name band :: past, id =>
    (band? past id).map fun last => if name = id then band else last
  | .poll world :: past, id => polled past world id
  | .afterTick world _ _ :: past, id => polled past world id
  | _ :: past, id => band? past id

/-- What has been returned for a participant. -/
def received : History P σ → ParticipantId → List (Tick × Power)
  | [], _ => []
  | op :: past, id => received past id ++ partFor id ((after past).returned op)

/-- How often a participant has been polled since it was registered. -/
def polls : History P σ → ParticipantId → Nat
  | [], _ => 0
  | .poll _ :: past, id => polls past id + if id ∈ names past then 1 else 0
  | .afterTick _ _ _ :: past, id => polls past id + if id ∈ names past then 1 else 0
  | _ :: past, id => polls past id

end History

/-- Every operation was admissible when its turn came. -/
def History.Sound [Recording P] : History P σ → Prop
  | [] => True
  | op :: past => op.Admissible (after past) ∧ History.Sound past

variable {past : History P σ} {op : Operation P σ} {id : ParticipantId}

omit [Participant P σ] in
theorem names_register (past : History P σ) (id : ParticipantId) (participant : P) (band : Band) :
    History.names (.register id participant band :: past) =
      if id ∈ past.names then past.names else past.names ++ [id] := by
  have hmem : id ∈ past.names ↔ id ∈ past.proposed := List.mem_eraseDups
  rw [History.names, History.proposed, eraseDups_concat]
  simp only [hmem]
  rfl

omit [Participant P σ] in
/-- A name that is still unknown was unknown before. -/
theorem not_mem_names_of_cons (hid : id ∉ History.names (op :: past)) : id ∉ past.names := by
  cases op with
  | register name participant band =>
    rw [names_register] at hid
    split at hid
    · exact hid
    · exact fun hmem => hid (List.mem_append_left _ hmem)
  | _ => exact hid

omit [Participant P σ] in
/-- It is not the name that has just been put forward. -/
theorem ne_of_not_mem_names {name : ParticipantId} {participant : P} {band : Band}
    (hid : id ∉ History.names (.register name participant band :: past)) : name ≠ id := by
  rintro rfl
  have hold := not_mem_names_of_cons hid
  rw [names_register, if_neg hold] at hid
  exact hid (List.mem_append_right _ (List.mem_singleton.mpr rfl))

theorem partFor_of_not_mem {signals : List Signal} (h : id ∉ signals.map (·.participant)) :
    partFor id signals = [] := by
  have hnone : signals.filter (fun s => s.participant = id) = [] := by
    rw [List.filter_eq_nil_iff]
    intro s hs hid
    exact h (List.mem_map.mpr ⟨s, hs, of_decide_eq_true hid⟩)
  rw [partFor, hnone, List.map_nil]

theorem partFor_cons (s : Signal) (signals : List Signal) :
    partFor id (s :: signals) =
      (if s.participant = id then [(s.tick, s.value)] else []) ++ partFor id signals := by
  by_cases h : s.participant = id <;> simp [partFor, h]

/-- Everybody finds one signal among those of a round. -/
theorem partFor_dues {d : Distributor P} {r : Registration P} (hnodup : d.participants.Nodup)
    (hr : r ∈ d.registrations) (tick : Tick) (value : Band → Power) :
    partFor r.id (d.dues tick value) = [(tick, value r.band)] := by
  rw [participants] at hnodup
  rw [dues]
  generalize d.registrations = registrations at hnodup hr
  induction registrations with
  | nil => cases hr
  | cons first rest ih =>
    have hfirst : first.id ∉ rest.map (·.id) := (List.nodup_cons.mp hnodup).1
    rw [List.map_cons, partFor_cons]
    rcases List.mem_cons.mp hr with rfl | hmem
    · have hrest : r.id ∉ (rest.map (Registration.due tick value)).map (·.participant) := by
        rwa [List.map_map]
      rw [Registration.due, if_pos rfl, partFor_of_not_mem hrest, List.append_nil]
    · have hid : r.id ∈ rest.map (·.id) := List.mem_map_of_mem hmem
      have hne : first.id ≠ r.id := fun h => hfirst (h.symm ▸ hid)
      rw [Registration.due, if_neg hne, ih (List.nodup_cons.mp hnodup).2 hmem, List.nil_append]

/-- Nothing has happened to a name. -/
structure Absent (past : History P σ) (id : ParticipantId) : Prop where
  enrolled_eq : past.enrolled? id = none
  band_eq : past.band? id = none
  received_eq : past.received id = []
  polls_eq : past.polls id = 0

/-- An operation that does nothing to a name. -/
structure Spares (past : History P σ) (op : Operation P σ) (id : ParticipantId) : Prop where
  enrolled_eq : History.enrolled? (op :: past) id = past.enrolled? id
  band_eq : History.band? (op :: past) id = past.band? id
  returned_eq : (after past).returned op = []
  polls_eq : History.polls (op :: past) id = past.polls id

variable {r : Registration P}

theorem received_of_returned (h : (after past).returned op = []) (id : ParticipantId) :
    History.received (op :: past) id = past.received id := by
  rw [History.received, h]
  exact List.append_nil _

variable [Recording P]

/-- A registration is as a history has made it. -/
structure Stands (past : History P σ) (r : Registration P) : Prop where
  valid : r.band.Valid
  band_eq : past.band? r.id = some r.band
  recorded : ∃ first, past.enrolled? r.id = some first ∧
    Recording.log r.participant = Recording.log first ++ past.received r.id ∧
    Recording.asked r.participant = Recording.asked first + past.polls r.id

/-- A distributor is as its history has made it. -/
structure Keeps (past : History P σ) : Prop where
  participants_eq : (after past).participants = past.names
  nodup : past.names.Nodup
  stands : ∀ r ∈ (after past).registrations, Stands past r
  absent : ∀ id ∉ past.names, Absent past id

theorem Stands.spared (h : Stands past r) (hop : Spares past op r.id) : Stands (op :: past) r := by
  obtain ⟨first, henrolled, hlog, hasked⟩ := h.recorded
  refine ⟨h.valid, hop.band_eq.trans h.band_eq, first, hop.enrolled_eq.trans henrolled, ?_, ?_⟩
  · rwa [received_of_returned hop.returned_eq]
  · rwa [hop.polls_eq]

/-- A visit leaves what is recorded alone. -/
theorem Stands.visited (h : Stands past r) {p : P}
    (hlog : Recording.log p = Recording.log r.participant)
    (hasked : Recording.asked p = Recording.asked r.participant) :
    Stands past { r with participant := p } := by
  obtain ⟨first, henrolled, hlog', hasked'⟩ := h.recorded
  exact ⟨h.valid, h.band_eq, first, henrolled, hlog.trans hlog', hasked.trans hasked'⟩

theorem Keeps.nodup_participants (h : Keeps past) : (after past).participants.Nodup :=
  h.participants_eq ▸ h.nodup

theorem Keeps.valid (h : Keeps past) : ∀ band ∈ (after past).bands, band.Valid := by
  intro band hband
  obtain ⟨r, hr, rfl⟩ := List.mem_map.mp hband
  exact (h.stands r hr).valid

theorem Keeps.mem_names (h : Keeps past) (hr : r ∈ (after past).registrations) :
    r.id ∈ past.names := h.participants_eq ▸ List.mem_map_of_mem hr

/-- An operation that reaches nobody but those registered leaves an unknown name alone. -/
theorem Keeps.absent_after (h : Keeps past) (hid : id ∉ History.names (op :: past))
    (hsignals : ∀ s ∈ (after past).returned op, s.participant ∈ past.names) :
    Absent (op :: past) id := by
  have hold := not_mem_names_of_cons hid
  have ha := h.absent id hold
  have hnone : ∀ world, past.polled world id = none := by
    intro world
    rw [History.polled, find?_of_not_mem (h.participants_eq ▸ hold)]
    rfl
  refine ⟨?_, ?_, ?_, ?_⟩
  · cases op with
    | register name participant band =>
      rw [History.enrolled?, ha.enrolled_eq, if_neg (ne_of_not_mem_names hid)]
      rfl
    | _ => exact ha.enrolled_eq
  · cases op with
    | register name participant band =>
      rw [History.band?, ha.band_eq, if_neg (ne_of_not_mem_names hid)]
      rfl
    | updateBand name band =>
      rw [History.band?, ha.band_eq]
      rfl
    | poll world => exact hnone world
    | afterTick world tick imbalance => exact hnone world
    | _ => exact ha.band_eq
  · have hpart : id ∉ ((after past).returned op).map (·.participant) := by
      intro hmem
      obtain ⟨s, hs, rfl⟩ := List.mem_map.mp hmem
      exact hold (hsignals s hs)
    rw [History.received, ha.received_eq, partFor_of_not_mem hpart]
    rfl
  · cases op with
    | poll world => rw [History.polls, ha.polls_eq, if_neg hold]
    | afterTick world tick imbalance => rw [History.polls, ha.polls_eq, if_neg hold]
    | _ => exact ha.polls_eq

/-- An operation that goes registration by registration and lets everybody stand. -/
theorem Keeps.of_map (h : Keeps past) {g : Registration P → Registration P}
    (hafter : after (op :: past) = ⟨(after past).registrations.map g⟩)
    (hid : ∀ r, (g r).id = r.id)
    (hnames : History.names (op :: past) = past.names)
    (hsignals : ∀ s ∈ (after past).returned op, s.participant ∈ past.names)
    (hstands : ∀ r ∈ (after past).registrations, Stands (op :: past) (g r)) :
    Keeps (op :: past) where
  participants_eq := by
    rw [hafter, hnames, ← h.participants_eq, participants, participants, List.map_map]
    exact List.map_congr_left fun r _ => hid r
  nodup := hnames ▸ h.nodup
  stands r hr := by
    rw [hafter] at hr
    obtain ⟨before, hbefore, rfl⟩ := List.mem_map.mp hr
    exact hstands before hbefore
  absent id hid := h.absent_after hid hsignals

/-- An operation that leaves everything as it is. -/
theorem Keeps.of_same (h : Keeps past) (hafter : after (op :: past) = after past)
    (hnames : History.names (op :: past) = past.names) (hreturned : (after past).returned op = [])
    (hspares : ∀ r ∈ (after past).registrations, Spares past op r.id) : Keeps (op :: past) := by
  refine @Keeps.of_map _ _ _ _ _ _ h id ?_ (fun _ => rfl) hnames ?_ ?_
  · rw [hafter, List.map_id]
  · intro s hs
    rw [hreturned] at hs
    cases hs
  · exact fun r hr => (h.stands r hr).spared (hspares r hr)

/-- Whoever is registered is not enrolled again. -/
theorem Stands.spares_register (h : Stands past r) {name : ParticipantId} {participant : P}
    {band : Band} (hreturned : (after past).returned (.register name participant band) = []) :
    Spares past (.register name participant band) r.id := by
  obtain ⟨first, henrolled, _⟩ := h.recorded
  refine ⟨?_, ?_, hreturned, rfl⟩
  · rw [History.enrolled?, henrolled]
    rfl
  · rw [History.band?, h.band_eq]
    rfl

omit [Recording P] in
theorem spares_updateBand {name : ParticipantId} {band : Band} (hne : name ≠ id)
    (hreturned : (after past).returned (.updateBand name band) = []) :
    Spares past (.updateBand name band) id := by
  refine ⟨rfl, ?_, hreturned, rfl⟩
  rw [History.band?]
  simp only [if_neg hne, Option.map_id']

theorem Keeps.spares_of_refused (h : Keeps past) {error : RegistryError}
    (hop : op.refusal? (after past).participants = some error)
    (hreturned : (after past).returned op = []) (hr : r ∈ (after past).registrations) :
    Spares past op r.id := by
  cases op with
  | register name participant band => exact (h.stands r hr).spares_register hreturned
  | updateBand name band =>
    refine spares_updateBand ?_ hreturned
    rintro rfl
    have hname : r.id ∈ (after past).participants := List.mem_map_of_mem hr
    rw [Operation.refusal?, if_pos hname] at hop
    cases hop
  | readBand | look | adjust => exact ⟨rfl, rfl, hreturned, rfl⟩
  | poll | signal | afterTick => cases hop

theorem Keeps.names_of_refused (h : Keeps past) {error : RegistryError}
    (hop : op.refusal? (after past).participants = some error) :
    History.names (op :: past) = past.names := by
  cases op with
  | register name participant band =>
    rw [Operation.refusal?, h.participants_eq] at hop
    rw [names_register]
    split at hop
    · next hname => exact if_pos hname
    · cases hop
  | _ => rfl

/-- A newcomer comes last and is as it was registered. -/
theorem Keeps.register (h : Keeps past) {participant : P} {band : Band} (hvalid : band.Valid)
    (hid : id ∉ past.names)
    (hreturned : (after past).returned (.register id participant band) = [])
    (hafter : after (.register id participant band :: past) =
      ⟨(after past).registrations ++ [⟨id, participant, band⟩]⟩) :
    Keeps (.register id participant band :: past) := by
  have hnames := names_register past id participant band
  rw [if_neg hid] at hnames
  refine ⟨?_, ?_, ?_, ?_⟩
  · rw [hafter, hnames, ← h.participants_eq]
    exact List.map_append
  · rw [hnames, ← List.concat_eq_append]
    exact h.nodup.concat hid
  · intro r hr
    rw [hafter] at hr
    rcases List.mem_append.mp hr with hr | hr
    · exact (h.stands r hr).spared ((h.stands r hr).spares_register hreturned)
    · -- the newcomer: nothing has happened to its name before
      obtain rfl := List.mem_singleton.mp hr
      have ha := h.absent id hid
      refine ⟨hvalid, ?_, participant, ?_, ?_, ?_⟩
      · rw [History.band?, ha.band_eq, if_pos rfl]
        rfl
      · rw [History.enrolled?, ha.enrolled_eq, if_pos rfl]
        rfl
      · rw [received_of_returned hreturned, ha.received_eq, List.append_nil]
      · exact (congrArg (Recording.asked participant + ·) ha.polls_eq).symm
  · intro name hname
    refine h.absent_after hname fun s hs => ?_
    rw [hreturned] at hs
    cases hs

theorem Keeps.polled_eq (h : Keeps past) {world : σ} (hanswering : (after past).Answering world)
    (hr : r ∈ (after past).registrations) :
    past.polled world r.id = some (reported world r.participant) := by
  rw [History.polled, find?_of_mem h.nodup_participants hr]
  change (Participant.capacity r.participant world).1.toOption = _
  rw [(hanswering.reported_eq hr).1]
  rfl

theorem Keeps.announce (h : Keeps past) {band : Band} (hvalid : band.Valid)
    (hreturned : (after past).returned (.updateBand id band) = [])
    (hafter : after (.updateBand id band :: past) =
      ⟨(after past).registrations.map (.announcing id band)⟩) :
    Keeps (.updateBand id band :: past) := by
  have hids := @Registration.id_announcing P id band
  refine h.of_map hafter hids rfl (by simp [hreturned]) fun r hr => ?_
  have hstands := h.stands r hr
  unfold Registration.announcing
  split
  · next hname =>
    obtain ⟨first, henrolled, hlog, hasked⟩ := hstands.recorded
    refine ⟨hvalid, ?_, first, henrolled, ?_, hasked⟩
    · rw [History.band?, hstands.band_eq, Option.map_some, if_pos hname.symm]
    · rwa [received_of_returned hreturned]
  · next hname => exact hstands.spared (spares_updateBand (Ne.symm hname) hreturned)

theorem Keeps.visit (h : Keeps past) {change : P → P}
    (hop : Operation.Admissible (after past) (.adjust id change))
    (hreturned : (after past).returned (.adjust id change) = [])
    (hafter : after (.adjust id change :: past) =
      ⟨(after past).registrations.map (.visiting id change)⟩) :
    Keeps (.adjust id change :: past) := by
  have hids := @Registration.id_visiting P id change
  refine h.of_map hafter hids rfl (by simp [hreturned]) fun r hr => ?_
  have hstands : Stands (.adjust id change :: past) r :=
    (h.stands r hr).spared ⟨rfl, rfl, hreturned, rfl⟩
  unfold Registration.visiting
  split
  · exact hstands.visited (hop r.participant).1 (hop r.participant).2
  · exact hstands

theorem Keeps.poll (h : Keeps past) {world : σ} (hanswering : (after past).Answering world)
    (hreturned : (after past).returned (.poll world) = [])
    (hafter : after (.poll world :: past) = (after past).asked world) :
    Keeps (.poll world :: past) := by
  refine h.of_map hafter (fun _ => rfl) rfl (by simp [hreturned]) fun r hr => ?_
  obtain ⟨first, henrolled, hlog, hasked⟩ := (h.stands r hr).recorded
  refine ⟨(hanswering.reported_eq hr).2, h.polled_eq hanswering hr, first, henrolled, ?_, ?_⟩
  · rw [received_of_returned hreturned, Registration.polled, Recording.log_capacity, hlog]
  · rw [History.polls, Registration.polled, if_pos (h.mem_names hr), Recording.asked_capacity,
      hasked, Nat.add_assoc]

/-- Every signal of a round goes to a name that is registered. -/
theorem participant_of_dues {d : Distributor P} {names : List ParticipantId}
    (hnames : d.participants = names) {tick : Tick} {value : Band → Power} :
    ∀ s ∈ d.dues tick value, s.participant ∈ names := by
  intro s hs
  obtain ⟨r, hr, rfl⟩ := List.mem_map.mp hs
  exact hnames ▸ List.mem_map_of_mem hr

theorem Keeps.signal (h : Keeps past) {tick : Tick} {imbalance : Power} {value : Band → Power}
    (hreturned : (after past).returned (.signal tick imbalance) = (after past).dues tick value)
    (hafter : after (.signal tick imbalance :: past) = (after past).handed tick value) :
    Keeps (.signal tick imbalance :: past) := by
  refine h.of_map hafter (fun _ => rfl) rfl
    (hreturned ▸ participant_of_dues h.participants_eq) fun r hr => ?_
  obtain ⟨first, henrolled, hlog, hasked⟩ := (h.stands r hr).recorded
  refine ⟨(h.stands r hr).valid, (h.stands r hr).band_eq, first, henrolled, ?_, ?_⟩
  · have hpart := partFor_dues h.nodup_participants hr tick value
    rw [History.received, hreturned, Registration.signalled, Recording.log_receive, hlog,
      List.append_assoc, hpart]
  · rwa [Registration.signalled, Recording.asked_receive]

theorem Keeps.afterTick (h : Keeps past) {world : σ} {tick : Tick} {imbalance : Power}
    {value : Band → Power} (hanswering : (after past).Answering world)
    (hreturned : (after past).returned (.afterTick world tick imbalance) =
      ((after past).asked world).dues tick value)
    (hafter : after (.afterTick world tick imbalance :: past) =
      ((after past).asked world).handed tick value) :
    Keeps (.afterTick world tick imbalance :: past) := by
  have hnames : ((after past).asked world).participants = past.names := by
    rw [← h.participants_eq, participants, asked, List.map_map]
    rfl
  rw [handed, asked, List.map_map] at hafter
  refine h.of_map hafter (fun _ => rfl) rfl (hreturned ▸ participant_of_dues hnames)
    fun r hr => ?_
  obtain ⟨first, henrolled, hlog, hasked⟩ := (h.stands r hr).recorded
  refine ⟨(hanswering.reported_eq hr).2, h.polled_eq hanswering hr, first, henrolled, ?_, ?_⟩
  · have hpart : partFor r.id (((after past).asked world).dues tick value) =
        [(tick, value (reported world r.participant))] :=
      partFor_dues (hnames ▸ h.nodup) (List.mem_map_of_mem hr) tick value
    change Recording.log (Participant.receive (Participant.capacity r.participant world).2 tick
      (value (reported world r.participant))) =
        Recording.log first ++ (past.received r.id ++ partFor r.id ((after past).returned _))
    rw [hreturned, hpart, Recording.log_receive, Recording.log_capacity, hlog, List.append_assoc]
  · change Recording.asked (Participant.receive (Participant.capacity r.participant world).2 tick
      (value (reported world r.participant))) =
        Recording.asked first + (past.polls r.id + if r.id ∈ past.names then 1 else 0)
    rw [if_pos (h.mem_names hr), Recording.asked_receive, Recording.asked_capacity, hasked,
      Nat.add_assoc]

/-- Whatever is done with a distributor, it stays as its history has made it. -/
theorem Keeps.perform (h : Keeps past) (hop : op.Admissible (after past)) :
    Keeps (op :: past) := by
  have heffect := effect h.nodup_participants h.valid hop
  generalize hanswer : ((after past).perform op).1 = answer,
    hafter : ((after past).perform op).2 = next at heffect
  have hreturned : (after past).returned op = signalsOf answer := congrArg signalsOf hanswer
  change after (op :: past) = next at hafter
  cases heffect with
  | refused hrefused =>
    exact h.of_same hafter (h.names_of_refused hrefused) hreturned
      fun r hr => h.spares_of_refused hrefused hreturned hr
  | registered hid => exact h.register hop (h.participants_eq ▸ hid) hreturned hafter
  | updated _ => exact h.announce hop hreturned hafter
  | read _ => exact h.of_same hafter rfl hreturned fun r _ => ⟨rfl, rfl, hreturned, rfl⟩
  | look _ => exact h.of_same hafter rfl hreturned fun r _ => ⟨rfl, rfl, hreturned, rfl⟩
  | adjusted _ => exact h.visit hop hreturned hafter
  | polled hanswering => exact h.poll hanswering hreturned hafter
  | signalled value => exact h.signal hreturned hafter
  | ticked value hanswering => exact h.afterTick hanswering hreturned hafter

theorem keeps_after (hsound : past.Sound) : Keeps past := by
  induction past with
  | nil => exact ⟨rfl, List.nodup_nil, nofun, fun _ _ => ⟨rfl, rfl, rfl, rfl⟩⟩
  | cons op past ih => exact (ih hsound.2).perform hsound.1

/-- What an operation that is carried out after a history answers, and leaves alone. -/
inductive Fits (past : History P σ) : Operation P σ → Answer P → Distributor P → Prop where
  | register {name participant band next} : Fits past (.register name participant band) .done next
  | updateBand {name band next} : Fits past (.updateBand name band) .done next
  | readBand {name band} (h : past.band? name = some band) :
    Fits past (.readBand name) (.band band) (after past)
  | look {registration} (hr : registration ∈ (after past).registrations) :
    Fits past (.look registration.id) (.participant registration.participant) (after past)
  | adjust {name change next} : Fits past (.adjust name change) .done next
  | poll {world next} : Fits past (.poll world) .done next
  | signal {tick imbalance signals next}
    (hsignals : signals.map (fun s => (s.participant, s.tick)) = past.names.map (·, tick))
    (hbands : next.bands = (after past).bands) :
    Fits past (.signal tick imbalance) (.signals signals) next
  | afterTick {world tick imbalance signals next}
    (hsignals : signals.map (fun s => (s.participant, s.tick)) = past.names.map (·, tick)) :
    Fits past (.afterTick world tick imbalance) (.signals signals) next

omit [Participant P σ] [Recording P] in
/-- Everybody is due one signal, for the tick at hand. -/
theorem map_dues {d : Distributor P} {names : List ParticipantId} (hnames : d.participants = names)
    (tick : Tick) (value : Band → Power) :
    (d.dues tick value).map (fun s => (s.participant, s.tick)) = names.map (·, tick) := by
  rw [← hnames, dues, participants, List.map_map, List.map_map]
  rfl

theorem Keeps.fits (h : Keeps past) {answer : Except Obstacle (Answer P)} {next : Distributor P}
    (heffect : Effect (after past) op answer next) :
    (∃ error, op.refusal? past.names = some error ∧ answer = .error (.refused error) ∧
      next = after past) ∨
    op.refusal? past.names = none ∧ ∃ reply, answer = .ok reply ∧ Fits past op reply next := by
  have hmem : ∀ {name}, name ∈ (after past).participants → name ∈ past.names :=
    fun hname => h.participants_eq ▸ hname
  cases heffect with
  | refused hrefused => exact .inl ⟨_, h.participants_eq ▸ hrefused, rfl, rfl⟩
  | registered hid => exact .inr ⟨if_neg (h.participants_eq ▸ hid), _, rfl, .register⟩
  | updated hid => exact .inr ⟨if_pos (hmem hid), _, rfl, .updateBand⟩
  | read hr => exact .inr ⟨if_pos (h.mem_names hr), _, rfl, .readBand (h.stands _ hr).band_eq⟩
  | look hr => exact .inr ⟨if_pos (h.mem_names hr), _, rfl, .look hr⟩
  | adjusted hid => exact .inr ⟨if_pos (hmem hid), _, rfl, .adjust⟩
  | polled _ => exact .inr ⟨rfl, _, rfl, .poll⟩
  | signalled value =>
    refine .inr ⟨rfl, _, rfl, .signal (map_dues h.participants_eq _ value) ?_⟩
    rw [bands, handed, List.map_map]
    rfl
  | ticked value _ =>
    refine .inr ⟨rfl, _, rfl, .afterTick (map_dues ?_ _ value)⟩
    rw [← h.participants_eq, participants, asked, List.map_map]
    rfl

/-- A distributor follows its history: in who is registered, in the band of everybody, and in what
everybody has received and how often it was asked. The next operation is refused by name and
changes nothing, or it is carried out and its answer follows the history too. -/
theorem follows_history (past : History P σ) (hsound : past.Sound) :
    Keeps past ∧ ∀ op : Operation P σ, op.Admissible (after past) →
      (∀ error, op.refusal? past.names = some error →
        (after past).perform op = (.error (.refused error), after past)) ∧
      (op.refusal? past.names = none → ∃ answer next,
        (after past).perform op = (.ok answer, next) ∧ Fits past op answer next) := by
  have h := keeps_after hsound
  refine ⟨h, fun op hop => ?_⟩
  rcases h.fits (effect h.nodup_participants h.valid hop) with
    ⟨error, hrefusal, hanswer, hnext⟩ | ⟨hrefusal, reply, hanswer, hfits⟩
  · refine ⟨fun error' hrefusal' => ?_, fun hnone => absurd (hnone.symm.trans hrefusal) nofun⟩
    obtain rfl := Option.some.inj (hrefusal.symm.trans hrefusal')
    exact Prod.ext hanswer hnext
  · exact ⟨fun error hsome => absurd (hrefusal.symm.trans hsome) nofun,
      fun _ => ⟨reply, _, Prod.ext hanswer rfl, hfits⟩⟩

/-- Two recorders, of which the first is put forward twice, and a name that nobody has. -/
def rehearsed : History Rehearsal.Recorder Unit :=
  [.afterTick () 2 (-5), .adjust ⟨"B"⟩ fun r => { r with band := ⟨3, 0⟩ },
    .updateBand ⟨"C"⟩ ⟨9, 9⟩, .signal 1 7, .updateBand ⟨"A"⟩ ⟨4, 8⟩,
    .register ⟨"A"⟩ (.new ⟨1, 1⟩) ⟨1, 1⟩, .register ⟨"B"⟩ (.new ⟨0, 6⟩) ⟨0, 6⟩,
    .register ⟨"A"⟩ (.new ⟨2, 2⟩) ⟨2, 2⟩]

theorem follows_history_rehearsed :
    rehearsed.Sound ∧ Keeps rehearsed ∧ rehearsed.names = [⟨"A"⟩, ⟨"B"⟩] ∧
      rehearsed.received ⟨"A"⟩ = [(1, 4), (2, -2)] ∧
      rehearsed.received ⟨"B"⟩ = [(1, 3), (2, -3)] ∧ rehearsed.band? ⟨"A"⟩ = some ⟨2, 2⟩ ∧
      (after rehearsed).perform (.look ⟨"C"⟩) =
        (.error (.refused (.unknown ⟨"C"⟩)), after rehearsed) := by
  have hvalid : ∀ band : Band, 0 ≤ band.down ∧ 0 ≤ band.up → band.Valid :=
    fun band h => Band.valid_of_nonneg h.1 h.2
  have hanswering : ∀ d : Distributor Rehearsal.Recorder,
      (∀ r ∈ d.registrations, 0 ≤ r.participant.band.down ∧ 0 ≤ r.participant.band.up) →
      d.Answering () :=
    fun d h r hr => ⟨r.participant.band, rfl, hvalid _ (h r hr)⟩
  have hsound : rehearsed.Sound :=
    ⟨⟨hanswering _ (by decide +kernel), by decide +kernel⟩, fun _ => ⟨rfl, rfl⟩,
      hvalid _ (by decide), show capacity 7 _ ≤ 10 ^ 26 by decide +kernel, hvalid _ (by decide),
      hvalid _ (by decide), hvalid _ (by decide), hvalid _ (by decide), trivial⟩
  obtain ⟨hkeeps, hnext⟩ := follows_history rehearsed hsound
  exact ⟨hsound, hkeeps, by decide, by decide +kernel, by decide +kernel, by decide +kernel,
    (hnext (.look ⟨"C"⟩) trivial).1 _ (by decide)⟩

end Distributor

end DemandResponse
