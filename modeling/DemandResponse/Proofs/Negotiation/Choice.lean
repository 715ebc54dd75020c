import DemandResponse.Proofs.Negotiation.Scores

/-!
# What scoring chooses

A preference chooses from some bids the first of the best acceptable ones, and there is no other
choice that it could make. Scoring asks for the score of every bid once, in the order of the bids,
and chooses by what it was answered, scores being compared by value. The smallest cover is the first
bid of the least amount among those that cover what is wanted.
-/

namespace DemandResponse.Negotiation

variable {P : Type}

namespace Preference

variable {r r' : Preference P} {bids : List P}

/-- The first of the best acceptable bids, or nothing if no bid is acceptable. -/
def Chooses (r : Preference P) (bids : List P) : Option P → Prop
  | none => ∀ bid ∈ bids, ¬ r.Acceptable bid
  | some bid => ∃ before after, bids = before ++ bid :: after ∧ r.Picks before bid after

/-- To prefer what is less in size, among what is acceptable. -/
def least (Acceptable : P → Prop) (size : P → Rat) : Preference P where
  Acceptable := Acceptable
  Better p q := size p < size q

theorem Chooses.imp (hnone : ∀ p, r'.Acceptable p → r.Acceptable p)
    (hpicks : ∀ {before bid after}, r.Picks before bid after → r'.Picks before bid after)
    {choice : Option P} (h : r.Chooses bids choice) : r'.Chooses bids choice := by
  cases choice with
  | none => exact fun bid hbid ha => h bid hbid (hnone bid ha)
  | some bid =>
    obtain ⟨before, after, hsplit, hp⟩ := h
    exact ⟨before, after, hsplit, hpicks hp⟩

/-- A pick is the first of the best, where whatever is acceptable beats what is not. -/
theorem Picks.firstBest {before after : List P} {bid : P} (h : r.Picks before bid after) :
    FirstBest (fun p q => r.Acceptable p ∧ (r.Acceptable q → r.Better p q))
      (before ++ bid :: after) bid := by
  refine ⟨before, after, rfl, fun other ho => ⟨h.acceptable, h.better other ho⟩, ?_⟩
  rintro other ho ⟨ha, hb⟩
  exact h.unbeaten other ho ha (hb h.acceptable)

/-- A preference leaves no choice but one. -/
theorem Chooses.eq {choice other : Option P} (h : r.Chooses bids choice)
    (h' : r.Chooses bids other) : choice = other := by
  have hclash : ∀ {bid}, r.Chooses bids (some bid) → ¬ r.Chooses bids none := by
    rintro bid ⟨before, after, rfl, hp⟩ hnone
    exact hnone bid (List.mem_append_right before List.mem_cons_self) hp.acceptable
  cases choice with
  | none =>
    cases other with
    | none => rfl
    | some bid => exact absurd h (hclash h')
  | some bid =>
    cases other with
    | none => exact absurd h' (hclash h)
    | some bid' =>
      obtain ⟨before, after, rfl, hp⟩ := h
      obtain ⟨before', after', hsplit, hp'⟩ := h'
      exact congrArg some (hp.firstBest.eq (hsplit ▸ hp'.firstBest))

theorem Chooses.eq_iff {choice other : Option P} (h : r.Chooses bids choice) :
    choice = other ↔ r.Chooses bids other :=
  ⟨fun he => he ▸ h, h.eq⟩

/-- No acceptable bid is better than the one that is chosen. -/
theorem Chooses.unbeaten (hasymm : ∀ {p q}, r.Better p q → ¬ r.Better q p) {bid other : P}
    (h : r.Chooses bids (some bid)) (ho : other ∈ bids) (ha : r.Acceptable other) :
    ¬ r.Better other bid := by
  obtain ⟨before, after, rfl, hp⟩ := h
  rcases List.mem_append.mp ho with ho | ho
  · exact hasymm (hp.better other ho ha)
  · rcases List.mem_cons.mp ho with rfl | ho
    · exact fun hb => hasymm hb hb
    · exact hp.unbeaten other ho ha

/-- Bids with an answer to what they score are acceptable, and the greater score is better. -/
def byAnswer : Preference (Option Decimal × P) where
  Acceptable bid := bid.1.isSome
  Better bid other := ∃ s ∈ bid.1, ∃ t ∈ other.1, t.value < s.value

end Preference

section Answers

/-- The first of the greatest scores is the same bid under whatever names the bids go by. -/
theorem top_map {Q : Type} (name : P → Q) (l : List (Decimal × P)) :
    top (l.map (Prod.map id name)) = (top l).map (Prod.map id name) := by
  cases l with
  | nil => rfl
  | cons first rest =>
    have hleading : ∀ best next : Decimal × P,
        leading (Prod.map id name best) (Prod.map id name next) =
          Prod.map id name (leading best next) := by
      intro best next
      unfold leading
      split <;> simp_all
    rw [List.map_cons, top, top, List.foldl_map, Option.map_some]
    exact congrArg some (List.foldl_hom (Prod.map id name) hleading)

/-- If every score can be computed, so can the choice. -/
theorem exists_selectBest_eq_ok {score : P → Except Fault (Option Decimal)} {bids : List P}
    (h : ∀ bid ∈ bids, ∃ s, score bid = .ok s) : ∃ choice, selectBest score bids = .ok choice := by
  have hmapM : ∃ scores, bids.mapM score = .ok scores := by
    induction bids with
    | nil => exact ⟨[], rfl⟩
    | cons bid rest ih =>
      obtain ⟨s, hs⟩ := h bid List.mem_cons_self
      obtain ⟨scores, hrest⟩ := ih fun other ho => h other (List.mem_cons_of_mem bid ho)
      exact ⟨s :: scores, by rw [List.mapM_cons, hs, hrest]; rfl⟩
  obtain ⟨scores, hscores⟩ := hmapM
  rw [selectBest_eq, hscores]
  exact ⟨_, rfl⟩

/-- If every score was computed, scoring chose by the scores. -/
theorem chooses_of_selectBest {score : P → Except Fault (Option Decimal)} {bids : List P}
    {choice : Option P} (h : selectBest score bids = .ok choice) :
    (Preference.byScore score).Chooses bids choice := by
  obtain ⟨rfl, _⟩ := selectBest_eq_ok h
  cases htop : top (bids.filterMap (withScore score)) with
  | none => exact not_acceptable_of_top htop
  | some x => exact picks_of_top htop

/-- The choice among bids that come with the answers to what they score. -/
def chosen (answered : List (Option Decimal × P)) : Option (Option Decimal × P) :=
  Id.run (selectBest (fun bid => pure bid.1) answered)

theorem chosen_eq (answered : List (Option Decimal × P)) :
    chosen answered = (top (scored (answered.map Prod.fst) answered)).map Prod.snd := by
  rw [chosen, selectBest_pure]
  rfl

theorem chooses_chosen (answered : List (Option Decimal × P)) :
    Preference.byAnswer.Chooses answered (chosen answered) := by
  have hselect : selectBest (fun bid => (.ok bid.1 : Except Fault (Option Decimal))) answered =
      .ok (chosen answered) := by
    rw [chosen_eq]
    exact selectBest_pure Prod.fst answered
  refine (chooses_of_selectBest hselect).imp ?_ ?_
  · intro bid hbid
    obtain ⟨s, hs⟩ := Option.isSome_iff_exists.mp hbid
    exact ⟨s, congrArg _ hs⟩
  · intro before bid after hpicks
    refine hpicks.congr (fun p => ?_) fun p q _ _ => ?_
    · simp [Preference.byScore, Preference.byAnswer, Option.isSome_iff_exists]
    · simp [Preference.byScore, Preference.byAnswer, Decimal.lt_iff_value_lt]

theorem scored_zip (scores : List (Option Decimal)) (bids : List P) :
    scored scores bids =
      (scored ((scores.zip bids).map Prod.fst) (scores.zip bids)).map (Prod.map id Prod.snd) := by
  unfold scored
  generalize scores.zip bids = answered
  induction answered with
  | nil => rfl
  | cons bid answered ih =>
    obtain ⟨score, bid⟩ := bid
    cases score <;> simp_all

/-- Scoring asks for all scores, and then chooses by the answers. -/
theorem selectBest_eq_chosen {m : Type → Type} [Monad m] [LawfulMonad m]
    (score : P → m (Option Decimal)) (bids : List P) :
    selectBest score bids = do
      let scores ← bids.mapM score
      return (chosen (scores.zip bids)).map Prod.snd := by
  rw [selectBest_eq]
  refine bind_congr fun scores => ?_
  rw [scored_zip, top_map, chosen_eq, Option.map_map, Option.map_map]
  rfl

end Answers

section Notes

variable {σ : Type}

/-- A score that keeps a state, and also notes which bids it is asked about. -/
def noted (score : P → StateM σ (Option Decimal)) (bid : P) :
    StateM (σ × List P) (Option Decimal) := fun (s, asked) =>
  let (answer, s) := score bid s
  (answer, s, asked ++ [bid])

theorem mapM_noted (score : P → StateM σ (Option Decimal)) (bids : List P) (s : σ)
    (asked : List P) :
    bids.mapM (noted score) (s, asked) =
      ((bids.mapM score s).1, (bids.mapM score s).2, asked ++ bids) := by
  induction bids generalizing s asked with
  | nil =>
    rw [List.append_nil]
    rfl
  | cons bid rest ih =>
    rw [List.mapM_cons, List.mapM_cons]
    change (let (scores, s') := rest.mapM (noted score) ((score bid s).2, asked ++ [bid])
      ((score bid s).1 :: scores, s')) = _
    rw [ih, List.append_assoc]
    rfl

theorem selectBest_noted (score : P → StateM σ (Option Decimal)) (bids : List P) (s : σ)
    (asked : List P) :
    selectBest (noted score) bids (s, asked) =
      ((selectBest score bids s).1, (selectBest score bids s).2, asked ++ bids) := by
  rw [selectBest_eq_chosen, selectBest_eq_chosen]
  change (let (scores, s') := bids.mapM (noted score) (s, asked)
    ((chosen (scores.zip bids)).map Prod.snd, s')) = _
  rw [mapM_noted]
  rfl

end Notes

section Cover

variable [Proposal P]

/-- To prefer the least amount among those that cover what is wanted. -/
def leastCover (wanted : Decimal) : Preference P :=
  .least (fun bid => wanted.value ≤ (Proposal.target bid).value)
    fun bid => (Proposal.target bid).value

theorem chooses_smallestCovering (bids : List P) (description : P) :
    (leastCover (Proposal.target description)).Chooses bids
      (smallestCovering bids description) := by
  have hselect := (smallestCovering_eq bids description).symm
  refine (chooses_of_selectBest hselect).imp (fun bid hcovers => ?_) fun hpicks => ?_
  · exact Preference.acceptable_byCover.mpr (Decimal.le_iff_value_le.mpr hcovers)
  · exact hpicks.byCover.congr (fun p => Decimal.le_iff_value_le)
      fun p q _ _ => Decimal.lt_iff_value_lt

end Cover

/-- Whatever a score remembers and however it may fault, scoring asks it for the score of every bid,
in the order of the bids, and from the answers follows the choice: the first bid of the greatest
score by value among those that have one, and nothing if and only if none has one. A score that takes
notes has been asked about all bids once each. So the smallest cover is the first bid of the least
amount among those that cover what is wanted, whatever the amounts, and is missing if and only if no
bid covers it. -/
theorem selectBest_chooses :
    (∀ (m : Type → Type) [Monad m] [LawfulMonad m] (P : Type) (score : P → m (Option Decimal))
      (bids : List P), ∃ choose : List (Option Decimal × P) → Option (Option Decimal × P),
        (selectBest score bids = do
          let scores ← bids.mapM score
          return (choose (scores.zip bids)).map Prod.snd) ∧
        ∀ answered choice, choose answered = choice ↔
          Preference.byAnswer.Chooses answered choice) ∧
    (∀ (σ P : Type) (score : P → StateM σ (Option Decimal)) (bids asked : List P) (s : σ),
      selectBest (noted score) bids (s, asked) =
        ((selectBest score bids s).1, (selectBest score bids s).2, asked ++ bids)) ∧
    ∀ (P : Type) [Proposal P] (bids : List P) (description : P) (choice : Option P),
      smallestCovering bids description = choice ↔
        (leastCover (Proposal.target description)).Chooses bids choice := by
  refine ⟨fun m _ _ P score bids => ?_, fun σ P score bids asked s => ?_, ?_⟩
  · exact ⟨chosen, selectBest_eq_chosen score bids, fun answered _ =>
      (chooses_chosen answered).eq_iff⟩
  · exact selectBest_noted score bids s asked
  · exact fun P _ bids description _ => (chooses_smallestCovering bids description).eq_iff

/-- 1.0, the same amount as 1 with one more place. -/
def onePointZero : Decimal := ⟨false, 10, 1, by decide, Decimal.half.scale_le⟩

/-- A score that counts how often it is asked, and accepts what covers 1. -/
def counting (bid : Amount) : StateM Nat (Option Decimal) := fun n => (thrift 1 bid, n + 1)

/-- Of 0.5, 1.0 and 1 the last two cover 1 and are the same; the first of them is chosen, after
three calls. -/
theorem selectBest_chooses_tied :
    selectBest (noted counting) [⟨.half⟩, ⟨onePointZero⟩, ⟨1⟩] (0, []) =
        (some ⟨onePointZero⟩, 3, [⟨.half⟩, ⟨onePointZero⟩, ⟨1⟩]) ∧
      smallestCovering [⟨.half⟩, ⟨onePointZero⟩, ⟨1⟩] (⟨1⟩ : Amount) = some ⟨onePointZero⟩ := by
  have hvalues : onePointZero.value = (1 : Decimal).value := by decide +kernel
  have hhalf : ¬ (1 : Decimal).value ≤ Decimal.half.value := by decide +kernel
  constructor
  · obtain ⟨choose, hselect, hchoose⟩ := selectBest_chooses.1 (StateM (Nat × List Amount)) Amount
      (noted counting) [⟨.half⟩, ⟨onePointZero⟩, ⟨1⟩]
    have hchosen : choose [(none, ⟨.half⟩), (some onePointZero.neg, ⟨onePointZero⟩),
        (some (1 : Decimal).neg, ⟨1⟩)] = some (some onePointZero.neg, ⟨onePointZero⟩) := by
      rw [hchoose]
      refine ⟨[(none, ⟨.half⟩)], [(some (1 : Decimal).neg, ⟨1⟩)], rfl, rfl, ?_, ?_⟩
      · simp [Preference.byAnswer]
      · simp [Preference.byAnswer, Decimal.value_neg, hvalues]
    rw [hselect]
    change ((choose [(none, ⟨.half⟩), (some onePointZero.neg, ⟨onePointZero⟩),
      (some (1 : Decimal).neg, ⟨1⟩)]).map Prod.snd, _) = _
    rw [hchosen]
    rfl
  · rw [selectBest_chooses.2.2]
    refine ⟨[⟨.half⟩], [⟨1⟩], rfl, hvalues.ge, ?_, ?_⟩
    · intro other ho hcovers
      obtain rfl := List.mem_singleton.mp ho
      exact absurd hcovers hhalf
    · intro other ho _
      obtain rfl := List.mem_singleton.mp ho
      exact hvalues.le.not_gt

end DemandResponse.Negotiation
