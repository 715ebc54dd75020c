import DemandResponse.Proofs.Aggregator.History
import DemandResponse.Proofs.Matching.Promise
import Mathlib.Logic.Relation

/-!
# From a poll to the next match

Operations may come in any order and in any world, and any of them may fault; the matcher of an
aggregator still knows the names of its sites, each once. Operations that neither poll nor signal
keep the target and the book, and the sites that were there. So the next match works on what was
polled, and a target as far as the book promises is met exactly.
-/

namespace DemandResponse.Aggregator

open Matching (Matcher)
open Relation (ReflTransGen)

variable {σ : Type} {settings : Settings} {allowed : Operation σ → Prop} {a b : Aggregator σ}
  {w : σ}

/-- One operation of some kind, in whatever world, and also if it faults. -/
def Step (allowed : Operation σ → Prop) (a b : Aggregator σ) : Prop :=
  ∃ w op, allowed op ∧ b = (a.perform w op).2.1

/-- An aggregator that was new once. -/
def Reached (settings : Settings) (a : Aggregator σ) : Prop :=
  ReflTransGen (Step fun _ => True) (new settings) a

/-- Everything but a poll and a signal. -/
def Operation.Quiet : Operation σ → Prop
  | .poll => False
  | .receive _ => False
  | _ => True

/-- A poll replaces the book or faults. -/
theorem exists_capacity_eq (a : Aggregator σ) (w : σ) :
    ∃ book, (a.capacity w).2 = { a with book } := by
  unfold Aggregator.capacity
  split
  · exact ⟨a.book, rfl⟩
  · exact ⟨_, rfl⟩

theorem tick_counts (a : Aggregator σ) (now : Tick) (w : σ) :
    (a.tick now w).2.1 = { a with ticks := a.ticks + 1 } := by
  cases hd : a.due with
  | false => rw [a.tick_of_not_due hd]
  | true =>
    obtain ⟨outcome, _, _, ht⟩ := a.tick_of_due hd now w
    rw [ht]

/-- The matcher knows the names of the sites, each once, and some ticks are due. -/
structure Wired (settings : Settings) (a : Aggregator σ) : Prop where
  strategy_eq : a.matcher.strategy = settings.strategy
  names_eq : a.sites.map Prod.fst = a.matcher.sites
  nodup : a.matcher.sites.Nodup
  frequency_pos : 0 < a.frequency

theorem wired_new (settings : Settings) : Wired settings (new settings : Aggregator σ) :=
  ⟨rfl, rfl, List.nodup_nil, Nat.lt_of_lt_of_le Nat.one_pos (Nat.le_max_right _ _)⟩

theorem Wired.perform (h : Wired settings a) (w : σ) (op : Operation σ) :
    Wired settings (a.perform w op).2.1 := by
  cases op with
  | register id site =>
    change Wired settings (a.register id site).2
    rw [register_eq]
    split
    · exact h
    · next hid =>
      refine ⟨h.strategy_eq, ?_, ?_, h.frequency_pos⟩
      · rw [List.map_append, h.names_eq]
        rfl
      · change (a.matcher.sites ++ [id]).Nodup
        rw [← List.concat_eq_append]
        exact h.nodup.concat hid
  | change f => exact h
  | poll =>
    obtain ⟨book, hbook⟩ := a.exists_capacity_eq w
    change Wired settings (a.capacity w).2
    rw [hbook]
    exact { h with }
  | receive target => exact { h with }
  | tick now =>
    change Wired settings (a.tick now w).2.1
    rw [tick_counts]
    exact { h with }

theorem Wired.run (h : Wired settings a) (hrun : ReflTransGen (Step allowed) a b) :
    Wired settings b := by
  induction hrun with
  | refl => exact h
  | tail _ hstep ih =>
    obtain ⟨w, op, _, rfl⟩ := hstep
    exact ih.perform w op

theorem Reached.wired (h : Reached settings a) : Wired settings a := (wired_new settings).run h

/-- What quiet operations keep. -/
structure Kept (a b : Aggregator σ) : Prop where
  target_eq : b.target = a.target
  book_eq : b.book = a.book
  sites_prefix : a.matcher.sites <+: b.matcher.sites

theorem kept_perform (a : Aggregator σ) (w : σ) {op : Operation σ} (hquiet : op.Quiet) :
    Kept a (a.perform w op).2.1 := by
  cases op with
  | register id site =>
    change Kept a (a.register id site).2
    rw [register_eq]
    split
    · exact ⟨rfl, rfl, List.prefix_rfl⟩
    · exact ⟨rfl, rfl, List.prefix_append _ _⟩
  | change f => exact ⟨rfl, rfl, List.prefix_rfl⟩
  | poll => exact hquiet.elim
  | receive target => exact hquiet.elim
  | tick now =>
    change Kept a (a.tick now w).2.1
    rw [tick_counts]
    exact ⟨rfl, rfl, List.prefix_rfl⟩

theorem kept_run (hrun : ReflTransGen (Step Operation.Quiet) a b) : Kept a b := by
  induction hrun with
  | refl => exact ⟨rfl, rfl, List.prefix_rfl⟩
  | @tail b _ _ hstep ih =>
    obtain ⟨w, op, hquiet, rfl⟩ := hstep
    have hnext := kept_perform b w hquiet
    exact ⟨hnext.target_eq.trans ih.target_eq, hnext.book_eq.trans ih.book_eq,
      ih.sites_prefix.trans hnext.sites_prefix⟩

theorem exists_ticks (a : Aggregator σ) (w : σ) (n : Nat) :
    ∃ later, ReflTransGen (Step Operation.Quiet) a later ∧ later.ticks = a.ticks + n ∧
      later.frequency = a.frequency := by
  induction n with
  | zero => exact ⟨a, .refl, rfl, rfl⟩
  | succ n ih =>
    obtain ⟨later, hrun, hticks, hfrequency⟩ := ih
    refine ⟨{ later with ticks := later.ticks + 1 }, hrun.tail ⟨w, .tick 0, trivial, ?_⟩, ?_,
      hfrequency⟩
    · exact (later.tick_counts 0 w).symm
    · exact congrArg (· + 1) hticks

/-- Ticking on, an aggregator comes to a tick that is due. -/
theorem Wired.exists_due (h : Wired settings a) (w : σ) :
    ∃ later, ReflTransGen (Step Operation.Quiet) a later ∧ later.due = true := by
  obtain ⟨later, hrun, hticks, hfrequency⟩ := a.exists_ticks w (a.ticks * (a.frequency - 1))
  have hmultiple : later.ticks = a.ticks * a.frequency := by
    obtain ⟨f, hf⟩ := Nat.exists_eq_add_one.mpr h.frequency_pos
    rw [hticks, hf, Nat.add_sub_cancel, Nat.mul_succ, Nat.add_comm]
  refine ⟨later, hrun, ?_⟩
  rw [due, hmultiple, hfrequency, Nat.mul_mod_left]
  rfl

/-- There is a next due tick. Whatever quiet operations come first, it is exact and achieves a
power. -/
structure Delivers (a : Aggregator σ) (power : Power) : Prop where
  comes : ∃ later, ReflTransGen (Step Operation.Quiet) a later ∧ later.due = true
  exact : ∀ later, ReflTransGen (Step Operation.Quiet) a later → later.due = true →
    ∀ now w, ∃ outcome, (later.tick now w).1 = .ok (some outcome) ∧
      outcome.isExact = .ok true ∧ outcome.achieved = .ok power

/-- The exhaustive strategy delivers a target as far as the book promises. -/
theorem Wired.delivers {way : Direction} (h : Wired settings a)
    (hstrategy : settings.strategy = .exhaustive) (hsites : a.book.sites = a.matcher.sites)
    (hfit : promise way a.book.entries ≤ Power.greatest)
    (htarget : way.sign * a.target.toInt = promise way a.book.entries) (w₀ : σ) :
    a.Delivers a.target := by
  refine ⟨h.exists_due w₀, fun later hrun hdue now w => ?_⟩
  have hkept := kept_run hrun
  have hlater := h.run hrun
  obtain ⟨more, hmore⟩ := hkept.sites_prefix
  rw [← hsites, ← hkept.book_eq] at hmore
  rw [← hkept.book_eq] at hfit htarget
  rw [← hkept.target_eq] at htarget ⊢
  obtain ⟨outcome, hmeet, hexact, hachieved⟩ := Matcher.meet_promised now
    (hlater.strategy_eq.trans hstrategy) hmore.symm hlater.nodup hfit htarget
  obtain ⟨outcome', hmeet', _, htick⟩ := later.tick_of_due hdue now w
  obtain rfl := Except.ok.inj (hmeet'.symm.trans hmeet)
  exact ⟨outcome', by rw [htick], hexact, hachieved⟩

/-- The offers can be put into one book, and what they promise is in range. -/
structure Pollable (a : Aggregator σ) (w : σ) : Prop where
  ids_nodup : (Book.idsOf (a.offering w)).Nodup
  sound : Book.Sound (a.offering w)
  fits : ∀ way, promise way (a.offering w) ≤ Power.greatest

/-- The aggregator once it has been polled. -/
def refreshed (a : Aggregator σ) (w : σ) : Aggregator σ :=
  { a with book := .listing (a.offering w) }

/-- The band that it answers. -/
def declared (a : Aggregator σ) (w : σ) : Band :=
  ⟨(Book.listing (a.offering w)).deliverable .down, (Book.listing (a.offering w)).deliverable .up⟩

theorem Wired.sites_offering (h : Wired settings a) (w : σ) :
    (a.offering w).map Prod.fst = a.matcher.sites := by
  rw [offering, List.map_map, ← h.names_eq]
  rfl

theorem Wired.nodup_offering (h : Wired settings a) (w : σ) :
    ((a.offering w).map Prod.fst).Nodup := h.sites_offering w ▸ h.nodup

/-- A poll takes over what the sites offer, if they repeat no id. -/
theorem Wired.capacity_of_distinct (h : Wired settings a)
    (hids : (Book.idsOf (a.offering w)).Nodup) (hsound : Book.Sound (a.offering w)) :
    a.capacity w = (.ok (a.declared w), a.refreshed w) :=
  capacity_eq (h.nodup_offering w) hids hsound

/-- The limits of the band are what the sites promise. -/
theorem Wired.toInt_deliverable (h : Wired settings a) (hpoll : a.Pollable w) (way : Direction) :
    ((Book.listing (a.offering w)).deliverable way).toInt = promise way (a.offering w) := by
  have hsites : (Book.listing (a.offering w)).sites.Nodup := by
    rw [Book.sites, Book.listing, h.sites_offering]
    exact h.nodup
  exact Book.toInt_deliverable hsites hpoll.sound (hpoll.fits way)

end DemandResponse.Aggregator
