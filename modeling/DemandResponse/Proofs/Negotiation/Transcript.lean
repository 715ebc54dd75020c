import DemandResponse.Proofs.Negotiation.Drain
import Mathlib.Data.List.Count

/-!
# The transcript of a round

Everything that passes in a round, for any number of responders and any parties: the calls, the
answers, and with a winner the rejections, the award and the report. A round that does not end
is one in which a party faulted. What a single responder hears follows from the transcript.
-/

namespace DemandResponse.Negotiation

variable {W P : Type}

/-- Some party can fault in this way. -/
inductive PartyFault (initiator : Initiator W P) (responders : List (Responder W P))
    (fault : Fault) : Prop where
  | describe {w w' : W} (h : initiator.describe w = (.error fault, w'))
  | choose {bids : List P} {description : P} {w w' : W}
      (h : initiator.choose bids description w = (.error fault, w'))
  | rescope {best : P} {w w' : W} (h : initiator.rescope best w = (.error fault, w'))
  | workDone {work : P} {w w' : W} (h : initiator.workDone work w = (.error fault, w'))
  | noSolution {w w' : W} (h : initiator.noSolution w = (.error fault, w'))
  | call {responder : Responder W P} (hr : responder ∈ responders) {description : P} {w w' : W}
      (h : responder.call description w = (.error fault, w'))
  | accept {responder : Responder W P} (hr : responder ∈ responders) {award : P} {w w' : W}
      (h : responder.accept award w = (.error fault, w'))
  | reject {responder : Responder W P} (hr : responder ∈ responders) {bid : P} {w w' : W}
      (h : responder.reject bid w = (.error fault, w'))

namespace Message

/-- A call to a responder. -/
def asks (number : Nat) : Message P → Bool
  | .callForProposal k _ => k == number
  | _ => false

/-- A verdict on the bid of a responder. -/
def judges (number : Nat) : Message P → Bool
  | .rejectProposal k _ => k == number
  | .acceptProposal k _ => k == number
  | _ => false

/-- A rejection is not behind an award. -/
def InOrder : Message P → Message P → Prop
  | .acceptProposal _ _, .rejectProposal _ _ => False
  | _, _ => True

end Message

/-- What the transcript of a course means for the single responder. -/
structure Course.Orderly (c : Course P) : Prop where
  /-- The award goes to somebody who bid. -/
  winner_bids : ∀ a, c.award = some a → a.winner ∈ c.bids.map Prod.fst
  /-- Everybody is asked exactly once. -/
  asked : ∀ k < c.size, c.transcript.countP (Message.asks k) = 1
  /-- With a winner every bidder hears one verdict; nobody else hears anything. -/
  judged : ∀ k, c.transcript.countP (Message.judges k) =
    if c.award.isSome ∧ k ∈ c.bids.map Prod.fst then 1 else 0
  /-- All rejections come before the award. -/
  inOrder : c.transcript.Pairwise Message.InOrder
  /-- How many messages the round takes. -/
  length_eq : c.transcript.length =
    2 * c.size + if c.award.isSome then c.bids.length + 1 else 0

section Faults

variable {initiator : Initiator W P} {responders : List (Responder W P)} {fault : Fault}

theorem fault_of_askEach {description : P} {asked : List (Responder W P)} {w w' : W}
    (hs : ∀ r ∈ asked, r ∈ responders)
    (h : askEach description asked w = (.error fault, w')) :
    PartyFault initiator responders fault := by
  induction asked generalizing w with
  | nil => cases h
  | cons responder rest ih =>
    rcases andThen_eq_error h with hc | ⟨answer, w₁, _, h⟩
    · exact .call (hs responder List.mem_cons_self) hc
    · rcases andThen_eq_error h with ho | ⟨others, w₂, _, h⟩
      · exact ih (fun r hr => hs r (List.mem_cons_of_mem responder hr)) ho
      · cases h

/-- Numbers beyond the registered ones belong to nobody who could fault. -/
theorem responder_mem_or_silent (responders : List (Responder W P)) (k : Nat) :
    responders.getD k .silent ∈ responders ∨ responders.getD k .silent = .silent := by
  rw [List.getD_eq_getElem?_getD]
  by_cases hk : k < responders.length
  · rw [List.getElem?_eq_getElem hk]
    exact Or.inl (List.getElem_mem hk)
  · rw [List.getElem?_eq_none (by omega)]
    exact Or.inr rfl

theorem fault_of_rejectEach {losers : List (Nat × P)} {w w' : W}
    (h : rejectEach (responders.getD · .silent) losers w = (.error fault, w')) :
    PartyFault initiator responders fault := by
  induction losers generalizing w with
  | nil => cases h
  | cons bid losers ih =>
    rcases andThen_eq_error h with hr | ⟨_, w₁, _, h⟩
    · rcases responder_mem_or_silent responders bid.1 with hm | hs
      · exact .reject hm hr
      · simp only [hs] at hr
        cases hr
    · exact ih h

theorem fault_of_perform {bids : List (Nat × P)} {winner : Nat} {best : P} {w w' : W}
    (h : perform initiator (responders.getD · .silent) bids winner best w = (.error fault, w')) :
    PartyFault initiator responders fault := by
  rcases andThen_eq_error h with hr | ⟨agreed, w₁, _, h⟩
  · exact .rescope hr
  rcases andThen_eq_error h with hr | ⟨_, w₂, _, h⟩
  · exact fault_of_rejectEach hr
  rcases andThen_eq_error h with ha | ⟨done, w₃, _, h⟩
  · rcases responder_mem_or_silent responders winner with hm | hs
    · exact .accept hm ha
    · simp only [hs] at ha
      cases ha
  rcases andThen_eq_error h with ht | ⟨_, w₄, _, h⟩
  · cases done with
    | none => cases ht
    | some work => exact .workDone ht
  · cases h

theorem fault_of_chooseAmong [Proposal P] {description : P} {bids : List (Nat × P)} {w w' : W}
    (h : chooseAmong initiator description bids w = (.error fault, w')) :
    PartyFault initiator responders fault := by
  unfold chooseAmong at h
  split at h
  · cases h
  · rcases andThen_eq_error h with hc | ⟨choice, w₁, _, h⟩
    · exact .choose hc
    · cases h

/-- A course breaks off only where a party faults. -/
theorem fault_of_course [Proposal P] {description : P} {w w' : W}
    (h : course initiator responders description w = (.error fault, w')) :
    PartyFault initiator responders fault := by
  rcases andThen_eq_error h with ha | ⟨answers, w₁, _, h⟩
  · exact fault_of_askEach (fun _ hr => hr) ha
  rcases andThen_eq_error h with hc | ⟨award, w₂, _, h⟩
  · rcases andThen_eq_error hc with hw | ⟨winner, w₃, _, hc⟩
    · exact fault_of_chooseAmong hw
    · cases winner with
      | none =>
        rcases andThen_eq_error hc with hn | ⟨_, w₄, _, hc⟩
        · exact .noSolution hn
        · cases hc
      | some winner =>
        rcases andThen_eq_error hc with hp | ⟨_, w₄, _, hc⟩
        · exact fault_of_perform hp
        · cases hc
  · cases h

end Faults

section Course

variable {initiator : Initiator W P} {responders : List (Responder W P)} {description : P}

theorem fst_mem_of_chooseAmong [Proposal P] {bids : List (Nat × P)} {choice : Nat × P} {w w' : W}
    (h : chooseAmong initiator description bids w = (.ok (some choice), w')) :
    choice.1 ∈ bids.map Prod.fst := by
  unfold chooseAmong at h
  split at h
  · cases h
  · obtain ⟨best, w₁, _, h⟩ := andThen_eq_ok_iff.mp h
    obtain ⟨best, rfl, hf⟩ := Option.bind_eq_some_iff.mp (Except.ok.inj (Prod.mk.inj h).1)
    obtain ⟨bid, hbid, rfl⟩ := Option.map_eq_some_iff.mp hf
    have hmem : bid ∈ bids := List.mem_of_find?_eq_some hbid
    exact List.mem_map.mpr ⟨bid, hmem, rfl⟩

theorem winner_of_perform {responder : Nat → Responder W P} {bids : List (Nat × P)} {winner : Nat}
    {best : P} {award : Award P} {w w' : W}
    (h : perform initiator responder bids winner best w = (.ok award, w')) :
    award.winner = winner := by
  obtain ⟨agreed, w₁, _, h⟩ := andThen_eq_ok_iff.mp h
  obtain ⟨_, w₂, _, h⟩ := andThen_eq_ok_iff.mp h
  obtain ⟨done, w₃, _, h⟩ := andThen_eq_ok_iff.mp h
  obtain ⟨_, w₄, _, h⟩ := andThen_eq_ok_iff.mp h
  cases h
  rfl

theorem winner_mem_of_conclude [Proposal P] {responder : Nat → Responder W P}
    {bids : List (Nat × P)} {award : Award P} {w w' : W}
    (h : conclude initiator responder description bids w = (.ok (some award), w')) :
    award.winner ∈ bids.map Prod.fst := by
  obtain ⟨winner, w₁, hc, h⟩ := andThen_eq_ok_iff.mp h
  cases winner with
  | none =>
    obtain ⟨_, w₂, _, h⟩ := andThen_eq_ok_iff.mp h
    cases h
  | some winner =>
    obtain ⟨_, w₂, hp, h⟩ := andThen_eq_ok_iff.mp h
    cases h
    rw [winner_of_perform hp]
    exact fst_mem_of_chooseAmong hc

/-- A course is about the work that was put out, and asks everybody. -/
theorem course_eq_ok [Proposal P] {c : Course P} {w w' : W}
    (h : course initiator responders description w = (.ok c, w')) :
    c.description = description ∧ c.size = responders.length ∧
      ∀ a, c.award = some a → a.winner ∈ c.bids.map Prod.fst := by
  obtain ⟨answers, w₁, ha, h⟩ := andThen_eq_ok_iff.mp h
  obtain ⟨award, w₂, hc, h⟩ := andThen_eq_ok_iff.mp h
  cases h
  refine ⟨rfl, length_of_askEach ha, ?_⟩
  rintro a rfl
  exact winner_mem_of_conclude hc

end Course

namespace Course

variable (c : Course P) (number : Nat)

theorem forall_mem_replies {m : Message P} (hm : m ∈ c.replies) : ∃ k a, m = replyOf k a := by
  unfold replies at hm
  rw [← List.map_uncurry_zip_eq_zipWith] at hm
  obtain ⟨⟨k, a⟩, _, rfl⟩ := List.mem_map.mp hm
  exact ⟨k, a, rfl⟩

theorem countP_asks_calls (hn : number < c.size) :
    c.calls.countP (Message.asks number) = 1 := by
  unfold calls
  rw [List.countP_map]
  exact List.count_eq_one_of_mem List.nodup_range (List.mem_range.mpr hn)

theorem countP_asks_replies : c.replies.countP (Message.asks number) = 0 := by
  rw [List.countP_eq_zero]
  intro m hm
  obtain ⟨k, _ | bid, rfl⟩ := c.forall_mem_replies hm <;> simp [replyOf, Message.asks]

theorem countP_asks_closing : c.closing.countP (Message.asks number) = 0 := by
  rw [List.countP_eq_zero]
  intro m hm
  unfold closing at hm
  split at hm
  · cases hm
  · next a _ =>
    rcases List.mem_append.mp hm with hm | hm
    · obtain ⟨bid, _, rfl⟩ := List.mem_map.mp hm
      exact Bool.false_ne_true
    · rcases List.mem_pair.mp hm with rfl | rfl
      · exact Bool.false_ne_true
      · unfold Award.report
        split <;> exact Bool.false_ne_true

theorem countP_judges_calls : c.calls.countP (Message.judges number) = 0 := by
  rw [List.countP_eq_zero]
  intro m hm
  obtain ⟨k, _, rfl⟩ := List.mem_map.mp hm
  exact Bool.false_ne_true

theorem countP_judges_replies : c.replies.countP (Message.judges number) = 0 := by
  rw [List.countP_eq_zero]
  intro m hm
  obtain ⟨k, _ | bid, rfl⟩ := c.forall_mem_replies hm <;> exact Bool.false_ne_true

theorem bidders_nodup : (c.bids.map Prod.fst).Nodup := Negotiation.bidders_nodup _ _

end Course

/-- Every bidder but the winner is rejected once. -/
theorem Award.countP_judges_losers (a : Award P) (bids : List (Nat × P)) (number : Nat)
    (hn : (bids.map Prod.fst).Nodup) :
    ((a.losers bids).map rejection).countP (Message.judges number) =
      if number ≠ a.winner ∧ number ∈ bids.map Prod.fst then 1 else 0 := by
  have hl : (a.losers bids).map Prod.fst =
      (bids.map Prod.fst).filter fun k => k ≠ a.winner := by
    rw [List.filter_map]
    rfl
  have hcount : ((a.losers bids).map rejection).countP (Message.judges number) =
      ((a.losers bids).map Prod.fst).count number := by
    rw [List.countP_map, List.count, List.countP_map]
    rfl
  have hmem : number ∈ (bids.map Prod.fst).filter (fun k => k ≠ a.winner) ↔
      number ≠ a.winner ∧ number ∈ bids.map Prod.fst := by
    rw [List.mem_filter, and_comm, decide_eq_true_iff]
  rw [hcount, hl, (hn.filter _).count]
  simp only [hmem]

namespace Course

variable {c : Course P}

theorem closing_of_eq_some {a : Award P} (ha : c.award = some a) :
    c.closing = (a.losers c.bids).map rejection ++ [.acceptProposal a.winner a.agreed, a.report] := by
  rw [closing, ha]

theorem closing_of_eq_none (ha : c.award = none) : c.closing = [] := by
  rw [closing, ha]

theorem countP_judges_closing (hw : ∀ a, c.award = some a → a.winner ∈ c.bids.map Prod.fst)
    (number : Nat) :
    c.closing.countP (Message.judges number) =
      if c.award.isSome ∧ number ∈ c.bids.map Prod.fst then 1 else 0 := by
  cases ha : c.award with
  | none =>
    rw [closing_of_eq_none ha, if_neg (by simp)]
    rfl
  | some a =>
    have hreport : Message.judges number a.report = false := by
      unfold Award.report
      split <;> rfl
    have hlast : [Message.acceptProposal a.winner a.agreed, a.report].countP
        (Message.judges number) = if a.winner = number then 1 else 0 := by
      rw [List.countP_cons, List.countP_singleton, hreport]
      simp [Message.judges]
    rw [closing_of_eq_some ha, List.countP_append, a.countP_judges_losers _ _ c.bidders_nodup,
      hlast]
    have := hw a ha
    -- the winner is not among the losers, and nobody else is told of the award
    by_cases hk : a.winner = number
    · subst hk
      simp only [ne_eq, not_true_eq_false, false_and, if_false, if_true, Option.isSome_some,
        this, and_self]
    · simp only [ne_eq, Ne.symm hk, hk, not_false_eq_true, true_and, if_false, Option.isSome_some,
        Nat.add_zero]

theorem length_losers {a : Award P} (hw : a.winner ∈ c.bids.map Prod.fst) :
    (a.losers c.bids).length + 1 = c.bids.length := by
  have hone : c.bids.countP (fun bid => bid.1 = a.winner) = 1 := by
    have h := List.count_eq_one_of_mem c.bidders_nodup hw
    rw [List.count, List.countP_map] at h
    exact h
  have hsplit := List.length_eq_countP_add_countP (fun bid : Nat × P => bid.1 = a.winner)
    (l := c.bids)
  rw [hone] at hsplit
  rw [hsplit, Award.losers, ← List.countP_eq_length_filter]
  simp [Nat.add_comm]

theorem length_calls : c.calls.length = c.size := by
  rw [calls, List.length_map, List.length_range]

theorem length_replies : c.replies.length = c.size := by
  rw [replies, List.length_zipWith, List.length_range]
  exact Nat.min_self _

theorem length_closing (hw : ∀ a, c.award = some a → a.winner ∈ c.bids.map Prod.fst) :
    c.closing.length = if c.award.isSome then c.bids.length + 1 else 0 := by
  cases ha : c.award with
  | none =>
    rw [closing_of_eq_none ha]
    rfl
  | some a =>
    rw [closing_of_eq_some ha, List.length_append, List.length_map, ← length_losers (hw a ha)]
    rfl

/-- Without an award in front the order is kept. -/
theorem pairwise_inOrder {front : List (Message P)}
    (hf : ∀ m ∈ front, ∀ m', Message.InOrder m m') : front.Pairwise Message.InOrder :=
  List.Pairwise.imp_of_mem (fun hm _ _ => hf _ hm _)
    (List.pairwise_of_forall fun _ _ => True.intro)

theorem inOrder_of_mem_calls {m m' : Message P} (hm : m ∈ c.calls) : Message.InOrder m m' := by
  obtain ⟨k, _, rfl⟩ := List.mem_map.mp hm
  trivial

theorem inOrder_of_mem_replies {m m' : Message P} (hm : m ∈ c.replies) :
    Message.InOrder m m' := by
  obtain ⟨k, _ | bid, rfl⟩ := c.forall_mem_replies hm <;> trivial

theorem pairwise_closing : c.closing.Pairwise Message.InOrder := by
  cases ha : c.award with
  | none =>
    rw [closing_of_eq_none ha]
    exact List.Pairwise.nil
  | some a =>
    have hrejection : ∀ m ∈ (a.losers c.bids).map rejection, ∀ m', Message.InOrder m m' := by
      intro m hm m'
      obtain ⟨bid, _, rfl⟩ := List.mem_map.mp hm
      trivial
    have hreport : Message.InOrder (.acceptProposal a.winner a.agreed) a.report := by
      unfold Award.report
      split <;> trivial
    rw [closing_of_eq_some ha, List.pairwise_append]
    refine ⟨pairwise_inOrder hrejection, List.pairwise_pair.mpr hreport, ?_⟩
    intro m hm m' _
    exact hrejection m hm m'

theorem pairwise_transcript : c.transcript.Pairwise Message.InOrder := by
  rw [transcript, List.pairwise_append, List.pairwise_append]
  refine ⟨⟨pairwise_inOrder fun m hm m' => inOrder_of_mem_calls hm,
    pairwise_inOrder fun m hm m' => inOrder_of_mem_replies hm, fun m hm m' _ => ?_⟩,
    pairwise_closing, fun m hm m' _ => ?_⟩
  · exact inOrder_of_mem_calls hm
  · rcases List.mem_append.mp hm with hm | hm
    · exact inOrder_of_mem_calls hm
    · exact inOrder_of_mem_replies hm

/-- A course whose award goes to a bidder is orderly. -/
theorem orderly (hw : ∀ a, c.award = some a → a.winner ∈ c.bids.map Prod.fst) : c.Orderly where
  winner_bids := hw
  asked k hk := by
    rw [transcript, List.countP_append, List.countP_append, c.countP_asks_calls k hk,
      c.countP_asks_replies, c.countP_asks_closing]
  judged k := by
    rw [transcript, List.countP_append, List.countP_append, c.countP_judges_calls,
      c.countP_judges_replies, countP_judges_closing hw, Nat.zero_add]
  inOrder := pairwise_transcript
  length_eq := by
    rw [transcript, List.length_append, List.length_append, length_calls, length_replies,
      length_closing hw, Nat.two_mul]

end Course

section Round

variable [Proposal P] (initiator : Initiator W P)

/-- A round ends unless a party faults in it: without work, or with its course on record. -/
theorem Net.solicit_ends (net : Net W P) (w : W) :
    (∃ fault net' w', Net.solicit initiator net w = (.error fault, net', w') ∧
      PartyFault initiator net.responders fault) ∨
    (∃ w', Net.solicit initiator net w = (.ok .noWork, net.reset, w')) ∨
    ∃ (c : Course P) (w' : W), c.size = net.responders.length ∧
      Net.solicit initiator net w = (.ok c.result, c.net net.responders, w') := by
  have hends := Net.ends_solicit initiator net w
  generalize Net.solicit initiator net w = ending at hends ⊢
  cases hends with
  | unasked hdescribe => exact .inl ⟨_, _, _, rfl, .describe hdescribe⟩
  | noWork => exact .inr (.inl ⟨_, rfl⟩)
  | brokenOff _ hcourse => exact .inl ⟨_, _, _, rfl, fault_of_course hcourse⟩
  | concluded _ hcourse => exact .inr (.inr ⟨_, _, (course_eq_ok hcourse).2.1, rfl⟩)

/-- A round with work follows its course, and breaks off where the course does. -/
theorem Net.solicit_eq_course (net : Net W P) {description : P} {w w₁ : W}
    (hwork : initiator.describe w = (.ok (some description), w₁)) :
    (∃ fault net' w', Net.solicit initiator net w = (.error fault, net', w') ∧
      course initiator net.responders description w₁ = (.error fault, w')) ∨
    ∃ c w', Net.solicit initiator net w = (.ok c.result, c.net net.responders, w') ∧
      course initiator net.responders description w₁ = (.ok c, w') := by
  have hends := Net.ends_solicit initiator net w
  generalize Net.solicit initiator net w = ending at hends ⊢
  cases hends with
  | unasked hdescribe => cases hwork.symm.trans hdescribe
  | noWork hdescribe => cases hwork.symm.trans hdescribe
  | brokenOff hdescribe hcourse =>
    cases hwork.symm.trans hdescribe
    exact .inl ⟨_, _, _, rfl, hcourse⟩
  | concluded hdescribe hcourse =>
    cases hwork.symm.trans hdescribe
    exact .inr ⟨_, _, rfl, hcourse⟩

/-- A round with work ends, unless a party faults in it, and then everything that passed in it is
the transcript of its course: all are called, all answer, and with a winner the losers are
rejected, the work is awarded and the winner reports. -/
theorem solicit_transcript (net : Net W P) {description : P} {w w₁ : W}
    (hwork : initiator.describe w = (.ok (some description), w₁)) :
    (∃ fault net' w', Net.solicit initiator net w = (.error fault, net', w') ∧
      course initiator net.responders description w₁ = (.error fault, w') ∧
      PartyFault initiator net.responders fault) ∨
    ∃ c net' w', Net.solicit initiator net w = (.ok c.result, net', w') ∧
      course initiator net.responders description w₁ = (.ok c, w') ∧
      c.description = description ∧ c.size = net.responders.length ∧
      net'.transcript = c.transcript ∧ net'.queue = [] ∧ c.Orderly := by
  rcases net.solicit_eq_course initiator hwork with ⟨fault, net', w', hs, hc⟩ | ⟨c, w', hs, hc⟩
  · exact .inl ⟨fault, net', w', hs, hc, fault_of_course hc⟩
  · obtain ⟨hd, hn, hw⟩ := course_eq_ok hc
    exact .inr ⟨c, c.net net.responders, w', hs, hc, hd, hn, rfl, rfl, Course.orderly hw⟩

/-- An initiator that takes the first bid. -/
def easyInitiator : Initiator Unit Amount where
  describe w := (.ok (some ⟨.half⟩), w)
  choose bids _ w := (.ok bids.head?, w)
  workDone _ w := (.ok (), w)
  noSolution w := (.ok (), w)

/-- A responder that makes a bid and keeps it. -/
def reliable (bid : Amount) : Responder Unit Amount where
  call _ w := (.ok (some bid), w)
  accept award w := (.ok (some award), w)

/-- Two bidders and one who refuses between them. -/
def easyNet : Net Unit Amount where
  responders := [reliable ⟨1⟩, .silent, reliable ⟨1⟩]

/-- With such parties the round ends, and its transcript has nine messages. -/
theorem solicit_transcript_easy :
    ∃ (c : Course Amount) (net' : Net Unit Amount) (w' : Unit),
      Net.solicit easyInitiator easyNet () = (.ok c.result, net', w') ∧ c.Orderly ∧
      net'.transcript = c.transcript ∧ net'.transcript.length = 9 := by
  rcases solicit_transcript easyInitiator easyNet (w := ()) rfl with
    ⟨fault, net', w', _, hc, _⟩ | ⟨c, net', w', hs, hc, _, _, ht, _, ho⟩
  · cases hc
  · refine ⟨c, net', w', hs, ho, ht, ?_⟩
    rw [ht, ho.length_eq]
    cases hc
    rfl

end Round

end DemandResponse.Negotiation
