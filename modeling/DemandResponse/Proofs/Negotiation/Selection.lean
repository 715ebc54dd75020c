import DemandResponse.Proofs.Negotiation.Scores
import DemandResponse.Proofs.Negotiation.Transcript

/-!
# The award goes to the bid that was picked

The initiator hands back a bid, not a bidder, and the round looks for the first bid that is the same.
If equal bids have equal scores that search ends at the very bid the score picked, since no bid
before it is as good. So with an initiator that chooses by score, among bids of any amounts and with
any ties, the round awards the pick and rejects everybody else who bid.
-/

namespace DemandResponse.Negotiation

variable {W P : Type}

/-- The same scores, up to the number of places. -/
def SameScore : Option Decimal → Option Decimal → Prop := Option.Rel fun s t => s.same t

/-- Bids that are the same have the same score, wherever both can be computed. -/
def Fair [Proposal P] (score : P → Except Fault (Option Decimal)) : Prop :=
  ∀ p q, Proposal.same p q → ∀ s t, score p = .ok s → score q = .ok t → SameScore s t

/-- The winner among some bids by a preference; nobody wins if no bid is acceptable. -/
def Preference.Elects (r : Preference P) (bids : List (Nat × P)) : Option (Nat × P) → Prop
  | none => ∀ bid ∈ bids, ¬ r.Acceptable bid.2
  | some (winner, bid) => ∃ before after, bids = before ++ (winner, bid) :: after ∧
      r.Picks (before.map Prod.snd) bid (after.map Prod.snd)

/-- How a round ends whose initiator follows a preference: without a solution, or with the work
awarded to who made the bid that was chosen, and all other bids rejected. -/
inductive Decided (r : Preference P) (bids : List (Nat × P)) (transcript : List (Message P)) :
    Option P → Result P → Prop where
  | nobody (h : ∀ bid ∈ bids, ¬ r.Acceptable bid.2) : Decided r bids transcript none .noSolution
  | award {before after : List (Nat × P)} {winner : Nat} {bid agreed : P} {completed : Bool}
      (split : bids = before ++ (winner, bid) :: after)
      (picks : r.Picks (before.map Prod.snd) bid (after.map Prod.snd))
      (awarded : .acceptProposal winner agreed ∈ transcript)
      (rejected : ∀ other ∈ before ++ after, .rejectProposal other.1 other.2 ∈ transcript) :
      Decided r bids transcript (some bid) (.awarded winner agreed completed)

/-- A round with work faults because a party does, or ends as a preference decides. The preference
may depend on the world in which the initiator is asked, which is the one that the answers left. -/
def DecidedBy [Proposal P] (initiator : Initiator W P) (net : Net W P) (w : W) (description : P)
    (w₁ : W) (rule : W → Preference P) : Prop :=
  (∃ fault net' w', Net.solicit initiator net w = (.error fault, net', w') ∧
    PartyFault initiator net.responders fault) ∨
  ∃ (c : Course P) (net' : Net W P) (w₂ w' : W) (choice : Option P),
    Net.solicit initiator net w = (.ok c.result, net', w') ∧ c.description = description ∧
    c.size = net.responders.length ∧ askEach description net.responders w₁ = (.ok c.answers, w₂) ∧
    (initiator.choose (c.bids.map Prod.snd) description w₂).1 = .ok choice ∧
    net'.transcript = c.transcript ∧ c.Orderly ∧
    Decided (rule w₂) c.bids net'.transcript choice c.result

section Choosing

variable [Proposal P] {score : P → Except Fault (Option Decimal)} {bids : List (Nat × P)}

/-- Looking for a bid that is the same as the pick finds the pick itself. -/
theorem find?_of_picks (hrefl : ∀ p : P, Proposal.same p p) (hfair : Fair score)
    (hscore : ∀ bid ∈ bids, ∃ s, score bid.2 = .ok s) {before after : List (Nat × P)}
    {winner : Nat} {bid : P} (hsplit : bids = before ++ (winner, bid) :: after)
    (hpick : (Preference.byScore score).Picks (before.map Prod.snd) bid (after.map Prod.snd)) :
    bids.find? (fun other => Proposal.same other.2 bid) = some (winner, bid) := by
  rw [List.find?_eq_some_iff_append]
  refine ⟨hrefl bid, before, after, hsplit, fun other ho => ?_⟩
  obtain ⟨s, hs⟩ := hpick.acceptable
  obtain ⟨t, ht⟩ := hscore other (hsplit ▸ List.mem_append_left _ ho)
  by_contra hsame
  have hsame : Proposal.same other.2 bid := by simpa using hsame
  -- a bid before the pick that is the same has its score, and the pick a greater one
  cases hfair other.2 bid hsame t _ ht hs with
  | @some t _ hval =>
    obtain ⟨s', t', hs', ht', hlt⟩ := hpick.better other.2 (List.mem_map_of_mem ho) ⟨t, ht⟩
    obtain rfl := Option.some.inj (Except.ok.inj (hs.symm.trans hs'))
    obtain rfl := Option.some.inj (Except.ok.inj (ht.symm.trans ht'))
    exact (Decimal.lt_iff_value_lt.mp hlt).ne (Decimal.same_iff_value_eq.mp hval)

variable {initiator : Initiator W P} {description : P} {w w' : W}

/-- An initiator that chooses by a fair score elects the pick. -/
theorem chooseAmong_elects (hrefl : ∀ p : P, Proposal.same p p) (hfair : Fair score)
    (hchoose : (initiator.choose (bids.map Prod.snd) description w).1 =
      selectBest score (bids.map Prod.snd)) {winner : Option (Nat × P)}
    (h : chooseAmong initiator description bids w = (.ok winner, w')) :
    (initiator.choose (bids.map Prod.snd) description w).1 = .ok (winner.map Prod.snd) ∧
      (Preference.byScore score).Elects bids winner := by
  unfold chooseAmong at h
  by_cases hempty : bids.isEmpty
  · rw [if_pos hempty] at h
    obtain rfl := List.isEmpty_iff.mp hempty
    cases h
    exact ⟨hchoose, by simp [Preference.Elects]⟩
  · rw [if_neg hempty] at h
    obtain ⟨choice, w₁, hchoice, h⟩ := andThen_eq_ok_iff.mp h
    have hwinner := Except.ok.inj (congrArg Prod.fst h)
    rw [hchoice] at hchoose ⊢
    obtain ⟨hpicked, hscore⟩ := selectBest_eq_ok hchoose.symm
    cases htop : top ((bids.map Prod.snd).filterMap (withScore score)) with
    | none =>
      obtain rfl : choice = none := by rw [hpicked, htop]; rfl
      obtain rfl : winner = none := hwinner.symm
      exact ⟨rfl, fun bid hbid => not_acceptable_of_top htop bid.2 (List.mem_map_of_mem hbid)⟩
    | some x =>
      obtain rfl : choice = some x.2 := by rw [hpicked, htop]; rfl
      obtain ⟨front, back, hsplit, hpick⟩ := picks_of_top htop
      obtain ⟨before, behind, rfl, rfl, hbehind⟩ := List.map_eq_append_iff.mp hsplit
      obtain ⟨⟨number, bid⟩, after, rfl, hbid, rfl⟩ := List.map_eq_cons_iff.mp hbehind
      rw [← show bid = x.2 from hbid] at hpick hwinner ⊢
      have hfound := find?_of_picks hrefl hfair
        (fun bid hbid => hscore bid.2 (List.mem_map_of_mem hbid)) rfl hpick
      rw [Option.bind_some, hfound] at hwinner
      obtain rfl : winner = some (number, bid) := hwinner.symm
      exact ⟨rfl, before, after, rfl, hpick⟩

end Choosing

section Round

variable {initiator : Initiator W P} {responders : List (Responder W P)} {c : Course P}

/-- What follows the answers goes by the winner of the choice. -/
theorem winner_of_conclude [Proposal P] {responder : Nat → Responder W P} {description : P}
    {bids : List (Nat × P)} {award : Option (Award P)} {w w' : W}
    (h : conclude initiator responder description bids w = (.ok award, w')) :
    ∃ winner w₁, chooseAmong initiator description bids w = (.ok winner, w₁) ∧
      award.map (·.winner) = winner.map Prod.fst := by
  obtain ⟨winner, w₁, hchoice, h⟩ := andThen_eq_ok_iff.mp h
  refine ⟨winner, w₁, hchoice, ?_⟩
  cases winner with
  | none =>
    obtain ⟨_, w₂, _, h⟩ := andThen_eq_ok_iff.mp h
    cases h
    rfl
  | some winner =>
    obtain ⟨award, w₂, hperform, h⟩ := andThen_eq_ok_iff.mp h
    cases h
    exact congrArg some (winner_of_perform hperform)

/-- A course whose award goes to the winner by a preference ends as the preference decides. -/
theorem Course.decided {r : Preference P} {winner : Option (Nat × P)}
    (helects : r.Elects c.bids winner) (haward : c.award.map (·.winner) = winner.map Prod.fst) :
    Decided r c.bids c.transcript (winner.map Prod.snd) c.result := by
  cases hc : c.award with
  | none =>
    rw [hc] at haward
    obtain rfl : winner = none := Option.map_eq_none_iff.mp haward.symm
    rw [Course.result, hc]
    exact .nobody helects
  | some a =>
    rw [hc] at haward
    obtain ⟨⟨number, bid⟩, rfl, hnumber⟩ := Option.map_eq_some_iff.mp haward.symm
    obtain rfl : number = a.winner := hnumber
    obtain ⟨before, after, hsplit, hpicks⟩ := helects
    have hclosing : ∀ m ∈ c.closing, m ∈ c.transcript := fun m hm => List.mem_append_right _ hm
    rw [closing_of_eq_some hc] at hclosing
    rw [Course.result, hc]
    refine .award hsplit hpicks (hclosing _ (by simp)) fun other ho => hclosing _ ?_
    -- no other bid is by the winner
    have hother : other.1 ≠ a.winner := by
      have hnodup := c.bidders_nodup
      rw [hsplit, List.map_append, List.map_cons] at hnodup
      have hnot := (List.nodup_middle.mp hnodup).notMem
      rw [← List.map_append] at hnot
      intro he
      have hmem := List.mem_map_of_mem (f := Prod.fst) ho
      rw [he] at hmem
      exact hnot hmem
    have hmem : other ∈ a.losers c.bids := by
      rw [Award.losers, List.mem_filter, hsplit, decide_eq_true_iff]
      refine ⟨?_, hother⟩
      rcases List.mem_append.mp ho with ho | ho
      · exact List.mem_append_left _ ho
      · exact List.mem_append_right _ (List.mem_cons_of_mem _ ho)
    exact List.mem_append_left _ (List.mem_map_of_mem (f := rejection) hmem)

/-- A round whose initiator chooses by a fair score ends as the score decides. -/
theorem decidedBy_score [Proposal P] (hrefl : ∀ p : P, Proposal.same p p)
    {score : W → P → P → Except Fault (Option Decimal)} (hfair : ∀ w d, Fair (score w d))
    (hchoose : ∀ bids d w, (initiator.choose bids d w).1 = selectBest (score w d) bids)
    (net : Net W P) {description : P} {w w₁ : W}
    (hwork : initiator.describe w = (.ok (some description), w₁)) :
    DecidedBy initiator net w description w₁ fun w₂ => .byScore (score w₂ description) := by
  rcases net.solicit_eq_course initiator hwork with ⟨fault, net', w', hs, hc⟩ | ⟨c, w', hs, hc⟩
  · exact .inl ⟨fault, net', w', hs, fault_of_course hc⟩
  · obtain ⟨hdescription, hsize, hwinner⟩ := course_eq_ok hc
    obtain ⟨answers, w₂, hanswers, hc⟩ := andThen_eq_ok_iff.mp hc
    obtain ⟨award, w₃, hconclude, hc⟩ := andThen_eq_ok_iff.mp hc
    cases hc
    obtain ⟨winner, w₄, hchoice, haward⟩ := winner_of_conclude hconclude
    obtain ⟨hchosen, helects⟩ :=
      chooseAmong_elects hrefl (hfair w₂ description) (hchoose _ _ _) hchoice
    exact .inr ⟨_, _, w₂, _, _, hs, hdescription, hsize, hanswers, hchosen, rfl,
      Course.orderly hwinner, Course.decided helects haward⟩

theorem Decided.imp {r r' : Preference P} {bids : List (Nat × P)} {transcript : List (Message P)}
    {choice : Option P} {result : Result P}
    (hacceptable : ∀ p, r'.Acceptable p → r.Acceptable p)
    (hpicks : ∀ before bid after, r.Picks before bid after → r'.Picks before bid after)
    (h : Decided r bids transcript choice result) : Decided r' bids transcript choice result := by
  cases h with
  | nobody h => exact .nobody fun bid hbid ha => h bid hbid (hacceptable bid.2 ha)
  | award hsplit hp hawarded hrejected => exact .award hsplit (hpicks _ _ _ hp) hawarded hrejected

end Round

theorem WorkProposal.same_refl (p : WorkProposal) : Proposal.same p p := by
  have hsame : ∀ d : Decimal, d.same d := fun d => Decimal.same_iff_value_eq.mpr rfl
  change WorkProposal.same p p
  simp [WorkProposal.same, hsame]

/-- Equal proposals cover the same amounts, and are as thrifty. -/
theorem WorkProposal.fair_thrift (wanted : Decimal) :
    Fair fun bid : WorkProposal => .ok (thrift wanted bid) := by
  intro p q hsame s t hs ht
  have htarget : p.target.value = q.target.value := by
    have hsame : WorkProposal.same p q := hsame
    simp only [WorkProposal.same, Bool.and_eq_true] at hsame
    exact Decimal.same_iff_value_eq.mp hsame.1.1.1.2
  obtain rfl := Except.ok.inj hs
  obtain rfl := Except.ok.inj ht
  have hcovers : wanted ≤ p.target ↔ wanted ≤ q.target := by
    rw [Decimal.le_iff_value_le, Decimal.le_iff_value_le, htarget]
  change SameScore (if wanted ≤ p.target then some p.target.neg else none)
    (if wanted ≤ q.target then some q.target.neg else none)
  by_cases hp : wanted ≤ p.target
  · rw [if_pos hp, if_pos (hcovers.mp hp)]
    refine .some (Decimal.same_iff_value_eq.mpr ?_)
    rw [Decimal.value_neg, Decimal.value_neg, htarget]
  · rw [if_neg hp, if_neg fun hq => hp (hcovers.mpr hq)]
    exact .none

/-- Whatever the bidders do, an initiator that chooses by a fair score has the work awarded to who
made the bid that the score picked, the first of the best that are acceptable, and everybody else who
bid rejected; without an acceptable bid there is no solution. If it chooses the smallest cover, the
pick is the first of the smallest bids that cover the work. -/
theorem solicit_awards_pick (initiator : Initiator W WorkProposal) (net : Net W WorkProposal)
    {description : WorkProposal} {w w₁ : W}
    (hwork : initiator.describe w = (.ok (some description), w₁)) :
    (∀ score : W → WorkProposal → WorkProposal → Except Fault (Option Decimal),
      (∀ w' d, Fair (score w' d)) →
      (∀ bids d w', (initiator.choose bids d w').1 = selectBest (score w' d) bids) →
      DecidedBy initiator net w description w₁ fun w₂ => .byScore (score w₂ description)) ∧
    ((∀ bids d w', (initiator.choose bids d w').1 = .ok (smallestCovering bids d)) →
      DecidedBy initiator net w description w₁ fun _ => .byCover description.target) := by
  refine ⟨fun score hfair hchoose =>
    decidedBy_score WorkProposal.same_refl hfair hchoose net hwork, fun hchoose => ?_⟩
  have hdecided := @decidedBy_score _ _ initiator _ WorkProposal.same_refl
    (fun _ d bid => .ok (thrift d.target bid)) (fun _ d => WorkProposal.fair_thrift d.target)
    (fun bids d w => (hchoose bids d w).trans (smallestCovering_eq bids d)) net _ _ _ hwork
  refine hdecided.imp_right ?_
  rintro ⟨c, net', w₂, w', choice, hs, hd, hn, ha, hchoice, ht, ho, hdecided⟩
  exact ⟨c, net', w₂, w', choice, hs, hd, hn, ha, hchoice, ht, ho,
    hdecided.imp (fun _ => Preference.acceptable_byCover.mpr) fun _ _ _ => Preference.Picks.byCover⟩

/-- An initiator that wants a cover of 1. -/
def coveringInitiator : Initiator Unit WorkProposal where
  describe w := (.ok (some (.new "absorb" 1)), w)
  choose bids description w := (.ok (smallestCovering bids description), w)
  workDone _ w := (.ok (), w)
  noSolution w := (.ok (), w)

/-- A responder that always bids an amount, and performs what it is awarded. -/
def bidder (target : Decimal) : Responder Unit WorkProposal where
  call _ w := (.ok (some (.new "bid" target)), w)
  accept award w := (.ok (some award), w)

/-- 1.50 and 1.5, the same amount with two places and with one. -/
def oneFifty : Decimal := ⟨false, 150, 2, by decide, by decide⟩

def oneFive : Decimal := ⟨false, 15, 1, by decide, Decimal.half.scale_le⟩

/-- Bids of 0.5, 1.50 and 1.5, and a refusal behind the first. -/
def tiedNet : Net Unit WorkProposal where
  responders := [bidder .half, .silent, bidder oneFifty, bidder oneFive]

theorem not_partyFault_tied {fault : Fault} :
    ¬ PartyFault coveringInitiator tiedNet.responders fault := by
  have hcalm : ∀ r ∈ tiedNet.responders, r = .silent ∨ ∃ target, r = bidder target := by
    simp [tiedNet]
  intro hp
  cases hp with
  | describe h | choose h | rescope h | workDone h | noSolution h => cases h
  | call hr h | accept hr h | reject hr h => obtain rfl | ⟨_, rfl⟩ := hcalm _ hr <;> cases h

/-- The first bid does not cover the work, and of the two equal ones the first wins. -/
theorem solicit_awards_pick_tied :
    (DecidedBy coveringInitiator tiedNet () (.new "absorb" 1) () fun _ =>
      .byScore fun bid => .ok (thrift 1 bid)) ∧
    ∃ agreed completed net' w', Net.solicit coveringInitiator tiedNet () =
      (.ok (.awarded 2 agreed completed), net', w') := by
  obtain ⟨hscore, hcover⟩ := solicit_awards_pick coveringInitiator tiedNet (w := ()) rfl
  refine ⟨hscore (fun _ d bid => .ok (thrift d.target bid))
    (fun _ d => WorkProposal.fair_thrift d.target) fun bids d _ => smallestCovering_eq bids d, ?_⟩
  rcases hcover fun _ _ _ => rfl with
    ⟨fault, net', w', _, hp⟩ | ⟨c, net', w₂, w', choice, hs, _, _, ha, _, _, _, hdecided⟩
  · exact absurd hp not_partyFault_tied
  · have hanswers := (Except.ok.inj (congrArg Prod.fst ha)).symm
    have hbids : c.bids = [(0, .new "bid" .half), (2, .new "bid" oneFifty),
        (3, .new "bid" oneFive)] := by
      rw [Course.bids, Course.size, hanswers]
      rfl
    rw [hbids] at hdecided
    generalize c.result = result at hdecided hs
    cases hdecided with
    | nobody h =>
      have hcovers : (1 : Decimal) ≤ oneFifty := by decide
      exact absurd hcovers (h (2, .new "bid" oneFifty) (by simp))
    | @award before after winner bid agreed completed hsplit hpicks =>
      rcases before with _ | ⟨first, _ | ⟨second, _ | ⟨third, before⟩⟩⟩
      · cases hsplit
        have hcovers : (1 : Decimal) ≤ .half := hpicks.acceptable
        exact absurd hcovers (by decide)
      · cases hsplit
        exact ⟨agreed, completed, net', w', hs⟩
      · cases hsplit
        have hless : oneFive < oneFifty :=
          hpicks.better (.new "bid" oneFifty) (by simp) (by decide : (1 : Decimal) ≤ oneFifty)
        exact absurd hless (by decide)
      · simp at hsplit

end DemandResponse.Negotiation
