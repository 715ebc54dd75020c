import DemandResponse.Aggregator
import DemandResponse.Proofs.Attempt
import DemandResponse.Proofs.Book.Listing
import DemandResponse.Proofs.Matching.Meeting

/-!
# What an aggregator owes to its history

Registrations, changes at the sites, polls, targets and ticks may come in any order. The answer
to the next tick follows from what has happened alone: from the number of ticks, the target last
received, the sites registered, and what these offered at the last poll. A history lists the
latest operation first.
-/

namespace DemandResponse.Aggregator

open Matching (Matcher Outcome Activation deliver dispatch)

variable {σ : Type}

/-- What can happen to an aggregator and to the world of its sites. -/
inductive Operation (σ : Type) where
  | register (id : SiteId) (site : Site σ)
  | change (f : σ → σ)
  | poll
  | receive (target : Power)
  | tick (now : Tick)

/-- What has happened, the latest first. -/
abbrev History (σ : Type) := List (Operation σ)

/-- Carry out an operation; its answer is dropped, but not its fault. -/
def perform (a : Aggregator σ) (w : σ) : Operation σ → Attempt (Aggregator σ × σ) Unit
  | .register id site => (.ok (), (a.register id site).2, w)
  | .change f => (.ok (), a, f w)
  | .poll => ((a.capacity w).1.map fun _ => (), (a.capacity w).2, w)
  | .receive target => (.ok (), a.receive target, w)
  | .tick now => ((a.tick now w).1.map fun _ => (), (a.tick now w).2)

/-- An aggregator and its world after a history. -/
def after (settings : Settings) (w : σ) : History σ → Attempt (Aggregator σ × σ) Unit
  | [] => (.ok (), new settings, w)
  | op :: past => andThen (after settings w past) fun _ s => perform s.1 s.2 op

namespace History

/-- Everything that was put forward for registration, the earliest first. -/
def registrations : History σ → List (SiteId × Site σ)
  | [] => []
  | .register id site :: past => registrations past ++ [(id, site)]
  | _ :: past => registrations past

/-- The names that were registered, each where it came first. -/
def names (past : History σ) : List SiteId := ((registrations past).map Prod.fst).eraseDups

/-- The site that was registered first under a name. -/
def siteOf (past : History σ) (id : SiteId) : Option (Site σ) :=
  ((registrations past).find? fun s => s.1 = id).map Prod.snd

/-- The number of ticks. -/
def ticks : History σ → Nat
  | [] => 0
  | .tick _ :: past => ticks past + 1
  | _ :: past => ticks past

/-- The target last received, and zero before the first. -/
def target : History σ → Power
  | [] => 0
  | .receive value :: _ => value
  | _ :: past => target past

/-- What the registered sites offer in a world. -/
def offering (past : History σ) (w : σ) : List (SiteId × List Offer) :=
  (names past).map fun id => (id, ((siteOf past id).map (·.offers w)).getD [])

/-- The world of the sites after a history that began in `w`. -/
def world (settings : Settings) (w : σ) (past : History σ) : σ := (after settings w past).2.2

/-- What the sites offered at the last poll; nothing if there was none. -/
def snapshot (settings : Settings) (w : σ) : History σ → List (SiteId × List Offer)
  | [] => []
  | .poll :: past => offering past (world settings w past)
  | _ :: past => snapshot settings w past

/-- At every poll the ids offered are distinct, and no magnitude is negative. -/
def Sound (settings : Settings) (w : σ) (past : History σ) : Prop :=
  ∀ before, (.poll :: before) <:+ past →
    (Book.idsOf (offering before (world settings w before))).Nodup ∧
      Book.Sound (offering before (world settings w before))

end History

/-- An aggregator is as its history has made it. -/
structure Follows (settings : Settings) (w : σ) (past : History σ) (a : Aggregator σ) : Prop where
  names_eq : a.sites.map Prod.fst = past.names
  nodup : (past.names).Nodup
  find_eq : ∀ id, a.sites.find? (fun s => s.1 = id) =
    past.registrations.find? fun s => s.1 = id
  matcher_eq : a.matcher = ⟨settings.strategy, past.names⟩
  frequency_eq : a.frequency = max 1 settings.frequency.toNat
  ticks_eq : a.ticks = past.ticks
  target_eq : a.target = past.target
  book_eq : a.book = .listing (past.snapshot settings w)

variable {settings : Settings} {w₀ w : σ} {past : History σ} {a : Aggregator σ}

theorem follows_new (settings : Settings) (w : σ) : Follows settings w [] (new settings) where
  names_eq := rfl
  nodup := List.nodup_nil
  find_eq _ := rfl
  matcher_eq := rfl
  frequency_eq := Nat.max_comm _ _
  ticks_eq := rfl
  target_eq := rfl
  book_eq := rfl

/-- A site is taken up unless its name is known. -/
theorem register_eq (a : Aggregator σ) (id : SiteId) (site : Site σ) :
    (a.register id site).2 =
      if id ∈ a.matcher.sites then a
      else { a with
        matcher := ⟨a.matcher.strategy, a.matcher.sites ++ [id]⟩
        sites := a.sites ++ [(id, site)] } := by
  unfold Aggregator.register Matcher.register
  by_cases h : id ∈ a.matcher.sites
  · simp only [if_pos h]
  · simp only [if_neg h]

theorem names_register (past : History σ) (id : SiteId) (site : Site σ) :
    History.names (.register id site :: past) =
      if id ∈ past.names then past.names else past.names ++ [id] := by
  have hmem : id ∈ past.names ↔ id ∈ past.registrations.map Prod.fst := List.mem_eraseDups
  rw [History.names, History.registrations, List.map_append]
  simp only [hmem]
  exact eraseDups_concat _ id

/-- A name that is taken stays with the site that has it. -/
theorem Follows.register_known (h : Follows settings w₀ past a) {id : SiteId} {site : Site σ}
    (hid : id ∈ past.names) : Follows settings w₀ (.register id site :: past) a := by
  have hnames : History.names (.register id site :: past) = past.names := by
    rw [names_register, if_pos hid]
  refine ⟨hnames ▸ h.names_eq, hnames ▸ h.nodup, ?_, hnames ▸ h.matcher_eq, h.frequency_eq,
    h.ticks_eq, h.target_eq, h.book_eq⟩
  intro other
  rw [h.find_eq, History.registrations, List.find?_append]
  cases hf : past.registrations.find? fun s => s.1 = other with
  | some s => rfl
  | none =>
    -- the site turned down is not found under another name either
    have hother : id ≠ other := by
      rintro rfl
      obtain ⟨s, hs, hid⟩ := List.mem_map.mp (List.mem_eraseDups.mp hid)
      have := List.find?_eq_none.mp hf s hs
      simp [hid] at this
    simp [hother]

theorem Follows.register_fresh (h : Follows settings w₀ past a) {id : SiteId} (site : Site σ)
    (hid : id ∉ past.names) :
    Follows settings w₀ (.register id site :: past)
      { a with
        matcher := ⟨settings.strategy, past.names ++ [id]⟩
        sites := a.sites ++ [(id, site)] } := by
  have hnames : History.names (.register id site :: past) = past.names ++ [id] := by
    rw [names_register, if_neg hid]
  refine ⟨?_, ?_, ?_, ?_, h.frequency_eq, h.ticks_eq, h.target_eq, h.book_eq⟩
  · rw [hnames, List.map_append, h.names_eq]
    rfl
  · rw [hnames]
    exact List.nodup_append.mpr ⟨h.nodup, List.nodup_singleton id, fun x hx y hy hxy =>
      hid (List.mem_singleton.mp hy ▸ hxy ▸ hx)⟩
  · intro other
    rw [History.registrations, List.find?_append, List.find?_append, h.find_eq]
  · rw [hnames]

theorem Follows.register (h : Follows settings w₀ past a) (id : SiteId) (site : Site σ) :
    Follows settings w₀ (.register id site :: past) (a.register id site).2 := by
  rw [register_eq, h.matcher_eq]
  by_cases hid : id ∈ past.names
  · rw [if_pos hid]
    exact h.register_known hid
  · rw [if_neg hid]
    exact h.register_fresh site hid

/-- What the sites offer in a world. -/
def offering (a : Aggregator σ) (w : σ) : List (SiteId × List Offer) :=
  a.sites.map fun s => (s.1, s.2.offers w)

/-- Distinct ids are gathered under distinct names as they stand, and their band is valid. -/
theorem capacity_eq (hnames : ((a.offering w).map Prod.fst).Nodup)
    (hids : (Book.idsOf (a.offering w)).Nodup) (hsound : Book.Sound (a.offering w)) :
    a.capacity w =
      (.ok ⟨(Book.listing (a.offering w)).deliverable .down,
        (Book.listing (a.offering w)).deliverable .up⟩,
        { a with book := .listing (a.offering w) }) := by
  have hbook : Book.extendAll (a.offering w) .empty = (.ok (), .listing (a.offering w)) :=
    @Book.extendAll_listing [] (a.offering w) hnames hids
  have hgather : a.gather w = .ok (.listing (a.offering w)) := by
    rw [gather]
    exact hbook ▸ rfl
  rw [Aggregator.capacity, hgather, ← Book.band_deliverable hsound]

/-- What the sites offer follows from what was registered. -/
theorem Follows.offering_eq (h : Follows settings w₀ past a) (w : σ) :
    a.offering w = past.offering w := by
  rw [Aggregator.offering, History.offering, ← h.names_eq, List.map_map]
  apply List.map_congr_left
  intro s hs
  have hfind : a.sites.find? (fun t => t.1 = s.1) = some s :=
    find?_of_nodup (h.names_eq ▸ h.nodup) hs
  rw [Function.comp_apply, History.siteOf, ← h.find_eq, hfind]
  rfl

/-- A poll takes over what the sites offer, and its band is valid. -/
theorem Follows.capacity (h : Follows settings w₀ past a)
    (hids : (Book.idsOf (past.offering w)).Nodup) (hsound : Book.Sound (past.offering w)) :
    a.capacity w =
      (.ok ⟨(Book.listing (past.offering w)).deliverable .down,
        (Book.listing (past.offering w)).deliverable .up⟩,
        { a with book := .listing (past.offering w) }) := by
  have hnames : ((past.offering w).map Prod.fst).Nodup := by
    rw [History.offering, List.map_map]
    exact (List.map_id past.names).symm ▸ h.nodup
  rw [← h.offering_eq] at hnames hids hsound ⊢
  exact capacity_eq hnames hids hsound

theorem tick_of_not_due (a : Aggregator σ) (h : a.due = false) (now : Tick) (w : σ) :
    a.tick now w = (.ok none, { a with ticks := a.ticks + 1 }, w) := by
  rw [tick, h]
  rfl

/-- Matching cannot fault, so a due tick has an outcome. -/
theorem tick_of_due (a : Aggregator σ) (h : a.due = true) (now : Tick) (w : σ) :
    ∃ outcome, a.matcher.meet now a.target a.book = .ok outcome ∧
      (∀ x ∈ outcome.activations, x.site ∈ a.matcher.sites) ∧
      a.tick now w =
        (.ok (some outcome), { a with ticks := a.ticks + 1 }, dispatch outcome a.sites w) := by
  obtain ⟨outcome, hmeet, hsites⟩ := Matching.meet_eq_ok a.matcher now a.target a.book
  refine ⟨outcome, hmeet, hsites, ?_⟩
  rw [tick, h, hmeet]
  rfl

/-- One operation keeps an aggregator in step with its history. -/
theorem Follows.perform (h : Follows settings w₀ past a) (op : Operation σ)
    (hworld : History.world settings w₀ past = w) (hsound : History.Sound settings w₀ (op :: past)) :
    ∃ a' w', a.perform w op = (.ok (), a', w') ∧ Follows settings w₀ (op :: past) a' := by
  cases op with
  | register id site => exact ⟨_, _, rfl, h.register id site⟩
  | change f => exact ⟨_, _, rfl, { h with }⟩
  | poll =>
    obtain ⟨hids, hmagnitudes⟩ := hsound past (List.suffix_refl _)
    rw [hworld] at hids hmagnitudes
    refine ⟨{ a with book := .listing (past.offering w) }, w, ?_, ?_⟩
    · rw [Aggregator.perform, h.capacity hids hmagnitudes]
      rfl
    · exact { h with book_eq := by rw [History.snapshot, hworld] }
  | receive target => exact ⟨_, _, rfl, { h with target_eq := rfl }⟩
  | tick now =>
    have hcounted : Follows settings w₀ (.tick now :: past) { a with ticks := a.ticks + 1 } :=
      { h with ticks_eq := congrArg (· + 1) h.ticks_eq }
    cases hd : a.due with
    | false =>
      refine ⟨_, w, ?_, hcounted⟩
      rw [Aggregator.perform, a.tick_of_not_due hd]
      rfl
    | true =>
      obtain ⟨outcome, _, _, ht⟩ := a.tick_of_due hd now w
      refine ⟨_, Matching.dispatch outcome a.sites w, ?_, hcounted⟩
      rw [Aggregator.perform, ht]
      rfl

/-- A sound history goes through without a fault, and the aggregator follows it. -/
theorem follows_after (hsound : past.Sound settings w₀) :
    ∃ a w, after settings w₀ past = (.ok (), a, w) ∧ Follows settings w₀ past a := by
  induction past with
  | nil => exact ⟨_, _, rfl, follows_new settings w₀⟩
  | cons op past ih =>
    obtain ⟨a, w, hrun, hf⟩ :=
      ih fun before hb => hsound before (hb.trans (List.suffix_cons op past))
    have hworld : History.world settings w₀ past = w := by
      rw [History.world, hrun]
    obtain ⟨a', w', hop, hf'⟩ := hf.perform op hworld hsound
    refine ⟨a', w', ?_, hf'⟩
    rw [after, hrun]
    exact hop

/-- Activations reach, one after the other, the site that was registered first under the name
of each. -/
inductive Delivered (past : History σ) : List Activation → σ → σ → Prop where
  | nil (w : σ) : Delivered past [] w w
  | cons {x : Activation} {rest : List Activation} {site : Site σ} {w w' : σ}
      (hsite : past.siteOf x.site = some site)
      (hrest : Delivered past rest (site.activate x.command w) w') :
      Delivered past (x :: rest) w w'

theorem Follows.deliver (h : Follows settings w₀ past a) {x : Activation}
    (hx : x.site ∈ past.names) (w : σ) :
    ∃ site, past.siteOf x.site = some site ∧
      Matching.deliver a.sites w x = site.activate x.command w := by
  obtain ⟨s, hs, hid⟩ := List.mem_map.mp (List.mem_eraseDups.mp hx)
  cases hf : past.registrations.find? fun s => s.1 = x.site with
  | none =>
    have := List.find?_eq_none.mp hf s hs
    simp [hid] at this
  | some found =>
    refine ⟨found.2, by rw [History.siteOf, hf]; rfl, ?_⟩
    rw [Matching.deliver, h.find_eq, hf]

theorem Follows.dispatch (h : Follows settings w₀ past a) {activations : List Activation}
    (hsites : ∀ x ∈ activations, x.site ∈ past.names) (w : σ) :
    Delivered past activations w (activations.foldl (Matching.deliver a.sites) w) := by
  induction activations generalizing w with
  | nil => exact .nil w
  | cons x rest ih =>
    obtain ⟨site, hsite, hd⟩ := h.deliver (hsites x List.mem_cons_self) w
    refine .cons hsite ?_
    rw [List.foldl_cons, hd]
    exact ih (fun y hy => hsites y (List.mem_cons_of_mem x hy)) _

theorem Follows.due_iff (h : Follows settings w₀ past a) :
    a.due = true ↔ past.ticks % max 1 settings.frequency.toNat = 0 := by
  rw [due, h.ticks_eq, h.frequency_eq, beq_iff_eq]

/-- The next tick of an aggregator has an outcome if and only if the ticks so far are a multiple
of its frequency. Then the outcome matches, over the sites registered so far, the target last
received against what was offered at the last poll, and every activation is delivered. -/
theorem tick_after (settings : Settings) (w₀ : σ) (past : History σ)
    (hsound : past.Sound settings w₀) :
    ∃ a w, after settings w₀ past = (.ok (), a, w) ∧ ∀ now,
      if past.ticks % max 1 settings.frequency.toNat = 0 then
        ∃ outcome a' w', a.tick now w = (.ok (some outcome), a', w') ∧
          Matcher.meet ⟨settings.strategy, past.names⟩ now past.target
            (.listing (past.snapshot settings w₀)) = .ok outcome ∧
          Delivered past outcome.activations w w'
      else ∃ a', a.tick now w = (.ok none, a', w) := by
  obtain ⟨a, w, hrun, hf⟩ := follows_after hsound
  refine ⟨a, w, hrun, fun now => ?_⟩
  split
  · next hdue =>
    obtain ⟨outcome, hmeet, hsites, htick⟩ := a.tick_of_due (hf.due_iff.mpr hdue) now w
    rw [hf.matcher_eq, hf.target_eq, hf.book_eq] at hmeet
    rw [hf.matcher_eq] at hsites
    exact ⟨outcome, _, _, htick, hmeet, hf.dispatch hsites w⟩
  · next hdue =>
    have hd : a.due = false := by
      rw [← Bool.not_eq_true, hf.due_iff]
      exact hdue
    exact ⟨_, a.tick_of_not_due hd now w⟩

/-- A site that puts forward the offers in the world, and notes what it is told there. -/
def clerk : Site (List Offer × List Command) where
  offers w := w.1
  activate command w := (w.1, command :: w.2)

/-- A site is polled while it has an offer, which it takes back before the target arrives. -/
def withdrawn : History (List Offer × List Command) :=
  [.receive 5, .change fun w => ([], w.2), .poll, .register ⟨"north"⟩ clerk]

theorem tick_after_withdrawn :
    withdrawn.Sound ⟨.exhaustive, 2⟩ ([⟨7, 5, .up, 0, 0, 0⟩], []) ∧
      ∃ a w, after ⟨.exhaustive, 2⟩ ([⟨7, 5, .up, 0, 0, 0⟩], []) withdrawn = (.ok (), a, w) ∧
        ∀ now, ∃ outcome a' w', a.tick now w = (.ok (some outcome), a', w') ∧
          Delivered withdrawn outcome.activations w w' := by
  have hsound : withdrawn.Sound ⟨.exhaustive, 2⟩ ([⟨7, 5, .up, 0, 0, 0⟩], []) := by
    intro before hb
    simp only [withdrawn, List.suffix_cons_iff, List.cons.injEq, reduceCtorEq, false_and, true_and,
      false_or, List.suffix_nil, or_false] at hb
    subst hb
    exact ⟨by decide, by unfold Book.Sound; decide⟩
  refine ⟨hsound, ?_⟩
  obtain ⟨a, w, hrun, htick⟩ := tick_after ⟨.exhaustive, 2⟩ _ withdrawn hsound
  refine ⟨a, w, hrun, fun now => ?_⟩
  obtain ⟨outcome, a', w', ht, _, hd⟩ := if_pos (rfl : withdrawn.ticks % _ = 0) ▸ htick now
  exact ⟨outcome, a', w', ht, hd⟩

end DemandResponse.Aggregator
