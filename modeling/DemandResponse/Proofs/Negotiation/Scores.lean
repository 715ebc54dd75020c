import DemandResponse.Negotiation.Scoring
import DemandResponse.Proofs.Decimal.Order

/-!
# The bid that scoring picks

Scores are computed one after the other, whatever computes them may remember or however it may
fault, and the pick depends on them alone: it is the first bid of the greatest score, by value, among
those that have one. A preference says the same without scores: which bids are acceptable, and which
of two is better.
-/

namespace DemandResponse.Negotiation

variable {P : Type}

/-- The bids that have a score, each with it. -/
def scored (scores : List (Option Decimal)) (bids : List P) : List (Decimal × P) :=
  (scores.zip bids).filterMap fun (score, bid) => score.map (·, bid)

/-- A bid that has a score, and the greatest so far. -/
def leading (best next : Decimal × P) : Decimal × P := if best.1 < next.1 then next else best

/-- The first of the greatest scores, with its bid. -/
def top : List (Decimal × P) → Option (Decimal × P)
  | [] => none
  | first :: rest => some (rest.foldl leading first)

section Pass

variable {m : Type → Type} [Monad m] [LawfulMonad m]

/-- The pass over some bids with a best bid in hand. -/
def passed (best : Option (Decimal × P)) (l : List (Decimal × P)) : Option (Decimal × P) :=
  l.foldl (fun best next => better best next.1 next.2) best

theorem passed_some (best : Decimal × P) (l : List (Decimal × P)) :
    passed (some best) l = some (l.foldl leading best) := by
  induction l generalizing best with
  | nil => rfl
  | cons next l ih =>
    change passed (better (some best) next.1 next.2) l = some (l.foldl leading (leading best next))
    have hbetter : better (some best) next.1 next.2 = some (leading best next) := by
      unfold better leading
      dsimp only
      split <;> rfl
    rw [hbetter]
    exact ih _

theorem passed_none (l : List (Decimal × P)) : passed none l = top l := by
  cases l with
  | nil => rfl
  | cons first rest => exact passed_some first rest

theorem selectFrom_eq (score : P → m (Option Decimal)) (best : Option (Decimal × P))
    (bids : List P) :
    selectFrom score best bids = do
      let scores ← bids.mapM score
      return passed best (scored scores bids) := by
  induction bids generalizing best with
  | nil =>
    rw [selectFrom, List.mapM_nil, pure_bind]
    rfl
  | cons bid rest ih =>
    rw [selectFrom, List.mapM_cons]
    simp only [bind_assoc, pure_bind]
    refine bind_congr fun s => ?_
    cases s with
    | none => exact ih best
    | some s => exact ih _

/-- The scores are computed once per bid, in the order of the bids, and decide. -/
theorem selectBest_eq (score : P → m (Option Decimal)) (bids : List P) :
    selectBest score bids = do
      let scores ← bids.mapM score
      return (top (scored scores bids)).map Prod.snd := by
  rw [selectBest, selectFrom_eq]
  simp only [bind_assoc, pure_bind, passed_none]

/-- A rule without effects picks the same in whatever setting it is used. -/
theorem selectBest_pure (score : P → Option Decimal) (bids : List P) :
    selectBest (m := m) (fun bid => pure (score bid)) bids =
      pure ((top (scored (bids.map score) bids)).map Prod.snd) := by
  rw [selectBest_eq, List.mapM_pure, pure_bind]

end Pass

/-- Which bids are acceptable, and which of two is better. -/
structure Preference (P : Type) where
  Acceptable : P → Prop
  Better : P → P → Prop

namespace Preference

/-- Among all acceptable bids this one is the first of the best. -/
structure Picks (r : Preference P) (before : List P) (bid : P) (after : List P) : Prop where
  acceptable : r.Acceptable bid
  better : ∀ other ∈ before, r.Acceptable other → r.Better bid other
  unbeaten : ∀ other ∈ after, r.Acceptable other → ¬ r.Better other bid

/-- Bids with a score are acceptable, and the greater score is better. -/
def byScore (score : P → Except Fault (Option Decimal)) : Preference P where
  Acceptable bid := ∃ s, score bid = .ok (some s)
  Better bid other := ∃ s t, score bid = .ok (some s) ∧ score other = .ok (some t) ∧ t < s

/-- Bids that cover an amount are acceptable, and the smaller one is better. -/
def byCover [Proposal P] (wanted : Decimal) : Preference P where
  Acceptable bid := wanted ≤ Proposal.target bid
  Better bid other := Proposal.target bid < Proposal.target other

/-- What matters of a preference is how it compares acceptable bids. -/
theorem Picks.congr {r r' : Preference P} {before after : List P} {bid : P}
    (hacceptable : ∀ p, r.Acceptable p ↔ r'.Acceptable p)
    (hbetter : ∀ p q, r.Acceptable p → r.Acceptable q → (r.Better p q ↔ r'.Better p q))
    (h : r.Picks before bid after) : r'.Picks before bid after where
  acceptable := (hacceptable bid).mp h.acceptable
  better other ho ha := by
    have ha := (hacceptable other).mpr ha
    exact (hbetter bid other h.acceptable ha).mp (h.better other ho ha)
  unbeaten other ho ha := by
    have ha := (hacceptable other).mpr ha
    exact fun hb => h.unbeaten other ho ha ((hbetter other bid ha h.acceptable).mpr hb)

end Preference

section Scores

variable {score : P → Except Fault (Option Decimal)} {bids : List P}

/-- A bid with its score, if it has one. -/
def withScore (score : P → Except Fault (Option Decimal)) (bid : P) : Option (Decimal × P) :=
  match score bid with
  | .ok (some s) => some (s, bid)
  | _ => none

theorem withScore_eq_some_iff {bid : P} {x : Decimal × P} :
    withScore score bid = some x ↔ score bid = .ok (some x.1) ∧ x.2 = bid := by
  obtain ⟨s, other⟩ := x
  unfold withScore
  split
  · next t ht =>
    rw [ht]
    simp [eq_comm]
  · next hnone =>
    refine iff_of_false nofun ?_
    rintro ⟨hs, _⟩
    exact hnone s hs

/-- If every score can be computed, the scored bids are those that have one. -/
theorem scored_eq_filterMap {scores : List (Option Decimal)} (h : bids.mapM score = .ok scores) :
    scored scores bids = bids.filterMap (withScore score) ∧
      ∀ bid ∈ bids, ∃ s, score bid = .ok s := by
  induction bids generalizing scores with
  | nil =>
    cases h
    exact ⟨rfl, by simp⟩
  | cons bid rest ih =>
    rw [List.mapM_cons] at h
    rcases hs : score bid with fault | s
    · rw [hs] at h
      cases h
    · rw [hs] at h
      rcases hrest : rest.mapM score with fault | others
      · rw [hrest] at h
        cases h
      · rw [hrest] at h
        cases h
        obtain ⟨hscored, hall⟩ := ih hrest
        refine ⟨?_, ?_⟩
        · rw [List.filterMap_cons, withScore, hs]
          cases s with
          | none => exact hscored
          | some s => exact congrArg ((s, bid) :: ·) hscored
        · intro other ho
          rcases List.mem_cons.mp ho with rfl | ho
          · exact ⟨s, hs⟩
          · exact hall other ho

theorem firstBest_top {l : List (Decimal × P)} {x : Decimal × P} (h : top l = some x) :
    FirstBest (fun a b => b.1 < a.1) l x := by
  cases l with
  | nil => cases h
  | cons first rest =>
    obtain rfl := Option.some.inj h
    exact firstBest_foldl (Decimal.strictRanking_gt.comap Prod.fst) first rest

theorem selectBest_eq_ok {chosen : Option P} (h : selectBest score bids = .ok chosen) :
    chosen = (top (bids.filterMap (withScore score))).map Prod.snd ∧
      ∀ bid ∈ bids, ∃ s, score bid = .ok s := by
  rw [selectBest_eq] at h
  rcases hs : bids.mapM score with fault | scores
  · rw [hs] at h
    cases h
  · rw [hs] at h
    cases h
    obtain ⟨hscored, hall⟩ := scored_eq_filterMap hs
    exact ⟨by rw [hscored], hall⟩

theorem not_acceptable_of_top (h : top (bids.filterMap (withScore score)) = none) :
    ∀ bid ∈ bids, ¬ (Preference.byScore score).Acceptable bid := by
  rintro bid hbid ⟨s, hs⟩
  have hmem : (s, bid) ∈ bids.filterMap (withScore score) :=
    List.mem_filterMap.mpr ⟨bid, hbid, withScore_eq_some_iff.mpr ⟨hs, rfl⟩⟩
  cases hl : bids.filterMap (withScore score) with
  | nil => simp [hl] at hmem
  | cons first rest => simp [hl, top] at h

/-- The pick stands among all bids where it stands among those with a score. -/
theorem picks_of_top {x : Decimal × P} (h : top (bids.filterMap (withScore score)) = some x) :
    ∃ before after, bids = before ++ x.2 :: after ∧
      (Preference.byScore score).Picks before x.2 after := by
  obtain ⟨behind, ahead, hsplit, hbeaten, hunbeaten⟩ := firstBest_top h
  obtain ⟨front, back, rfl, hfront, hback⟩ := List.filterMap_eq_append_iff.mp hsplit
  obtain ⟨silent, bid, after, rfl, hsilent, hbid, hafter⟩ := List.filterMap_eq_cons_iff.mp hback
  obtain ⟨hscore, rfl⟩ := withScore_eq_some_iff.mp hbid
  refine ⟨front ++ silent, after, by simp, ⟨_, hscore⟩, ?_, ?_⟩
  · rintro other ho ⟨t, ht⟩
    have hother : withScore score other = some (t, other) := withScore_eq_some_iff.mpr ⟨ht, rfl⟩
    rcases List.mem_append.mp ho with ho | ho
    · have hmem : (t, other) ∈ behind := hfront ▸ List.mem_filterMap.mpr ⟨other, ho, hother⟩
      exact ⟨x.1, t, hscore, ht, hbeaten _ hmem⟩
    · cases (hsilent other ho).symm.trans hother
  · rintro other ho _ ⟨s, t, hs, ht, hlt⟩
    have hother : withScore score other = some (s, other) := withScore_eq_some_iff.mpr ⟨hs, rfl⟩
    have hmem : (s, other) ∈ ahead := hafter ▸ List.mem_filterMap.mpr ⟨other, ho, hother⟩
    obtain rfl := Option.some.inj (Except.ok.inj (hscore.symm.trans ht))
    exact hunbeaten _ hmem hlt

end Scores

section Cover

variable [Proposal P] {wanted : Decimal} {bid : P}

theorem thrift_eq_some_iff {s : Decimal} :
    thrift wanted bid = some s ↔ wanted ≤ Proposal.target bid ∧ s = (Proposal.target bid).neg := by
  unfold thrift
  split
  · next h => simp [h, eq_comm]
  · next h => simp [h]

/-- The smallest cover is the pick by the score of thrift. -/
theorem smallestCovering_eq (bids : List P) (description : P) :
    (.ok (smallestCovering bids description) : Except Fault (Option P)) =
      selectBest (fun bid => .ok (thrift (Proposal.target description) bid)) bids := by
  have hpure := selectBest_pure (m := Except Fault) (thrift (Proposal.target description)) bids
  refine Eq.trans ?_ hpure.symm
  rw [smallestCovering, selectBest_pure]
  rfl

namespace Preference

theorem acceptable_byCover :
    (byScore fun bid : P => .ok (thrift wanted bid)).Acceptable bid ↔
      (byCover wanted).Acceptable bid := by
  simp [byScore, byCover, thrift_eq_some_iff]

/-- To prefer the greater score of thrift is to prefer the smaller cover. -/
theorem Picks.byCover {before after : List P}
    (h : (byScore fun bid => .ok (thrift wanted bid)).Picks before bid after) :
    (Preference.byCover wanted).Picks before bid after := by
  refine h.congr (fun p => acceptable_byCover) fun p q hp hq => ?_
  rw [acceptable_byCover] at hp hq
  simp only [byScore, Except.ok.injEq, thrift_eq_some_iff]
  constructor
  · rintro ⟨s, t, ⟨_, rfl⟩, ⟨_, rfl⟩, hlt⟩
    exact Decimal.neg_lt_iff.mp hlt
  · intro hlt
    exact ⟨_, _, ⟨hp, rfl⟩, ⟨hq, rfl⟩, Decimal.neg_lt_iff.mpr hlt⟩

end Preference

end Cover

end DemandResponse.Negotiation
