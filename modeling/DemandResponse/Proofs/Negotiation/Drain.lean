import DemandResponse.Proofs.Negotiation.Course
import DemandResponse.Proofs.Negotiation.Turns

/-!
# The message loop runs the course

The queue of a round holds the calls that are still to be made and behind them the answers so
far; then the answers alone; then the rejections and the award. Each of these stretches is
handled by the lemma of its own, whatever stands behind it, and together they show that the loop
makes the calls of `course`, in that order, and leaves the net of that course on record.
-/

namespace DemandResponse.Negotiation

variable {W P α β : Type}

/-- An answer together with the net that it came with; a fault keeps the world alone. -/
def kept (a : Attempt (Net W P × W) α) : Attempt W (α × Net W P) :=
  match a with
  | (.ok x, net, w) => (.ok (x, net), w)
  | (.error fault, _, w) => (.error fault, w)

theorem eq_error_of_kept {a : Attempt (Net W P × W) α} {fault : Fault} {w : W}
    (h : kept a = (.error fault, w)) : ∃ net, a = (.error fault, net, w) := by
  obtain ⟨_ | _, net, _⟩ := a
  · cases h
    exact ⟨net, rfl⟩
  · cases h

theorem eq_ok_of_kept {a : Attempt (Net W P × W) α} {x : α} {net : Net W P} {w : W}
    (h : kept a = (.ok (x, net), w)) : a = (.ok x, net, w) := by
  obtain ⟨_ | _, _, _⟩ := a
  · cases h
  · cases h
    rfl

/-- What goes on from the net that an answer came with. -/
theorem kept_andThen (a : Attempt (Net W P × W) α)
    (next : Net W P → W → Attempt (Net W P × W) β) :
    kept (andThen a fun _ s => next s.1 s.2) = andThen (kept a) fun r w => kept (next r.2 w) := by
  obtain ⟨_ | _, _, _⟩ := a <;> rfl

namespace Net

/-- The net after some messages have been handled, with what is queued then. -/
def past (net : Net W P) (messages queue : List (Message P)) : Net W P :=
  { net with queue, transcript := net.transcript ++ messages }

/-- The net after some answers have been counted, their bids put on record. -/
def counting (net : Net W P) (numbers : List Nat) (answers : List (Option P)) : Net W P :=
  { net with
    proposals := net.proposals ++ bidsOf numbers answers
    answered := net.answered + numbers.length }

theorem past_past (net : Net W P) (messages queue messages' queue' : List (Message P)) :
    (net.past messages queue).past messages' queue' = net.past (messages ++ messages') queue' := by
  simp only [past, List.append_assoc]

theorem send_past (net : Net W P) (messages queue : List (Message P)) (message : Message P) :
    (net.past messages queue).send message = net.past messages (queue ++ [message]) := rfl

theorem past_counting (net : Net W P) (messages queue : List (Message P)) (numbers : List Nat)
    (answers : List (Option P)) :
    (net.past messages queue).counting numbers answers =
      (net.counting numbers answers).past messages queue := rfl

theorem bidsOf_cons (number : Nat) (numbers : List Nat) (answer : Option P)
    (answers : List (Option P)) :
    bidsOf (number :: numbers) (answer :: answers) =
      bidsOf [number] [answer] ++ bidsOf numbers answers := by
  cases answer <;> rfl

theorem counting_counting (net : Net W P) (number : Nat) (numbers : List Nat) (answer : Option P)
    (answers : List (Option P)) :
    (net.counting [number] [answer]).counting numbers answers =
      net.counting (number :: numbers) (answer :: answers) := by
  have hn : net.answered + 1 + numbers.length = net.answered + (numbers.length + 1) := by omega
  have hb := bidsOf_cons number numbers answer answers
  simp only [counting, hb, hn, List.append_assoc, List.length_cons, List.length_nil, Nat.zero_add]

variable [Proposal P] (initiator : Initiator W P)

/-- The loop, up to the net that a fault leaves behind. -/
def loop (net : Net W P) (w : W) : Attempt W (Unit × Net W P) := kept (drain initiator net w)

theorem loop_nil {net : Net W P} (hq : net.queue = []) (w : W) :
    loop initiator net w = (.ok ((), net), w) := by
  rw [loop, drain_nil hq]
  rfl

theorem loop_cons (net : Net W P) (message : Message P) (messages rest : List (Message P)) (w : W) :
    loop initiator (net.past messages (message :: rest)) w =
      andThen (kept (handle initiator message (net.past (messages ++ [message]) rest) w))
        fun r w => loop initiator r.2 w := by
  rw [loop, drain_cons rfl, kept_andThen, ← past_past net messages (message :: rest)]
  rfl

/-- A call is answered, or ends the round. -/
theorem kept_handle_call (number : Nat) (description : P) (net : Net W P) (w : W) :
    kept (handle initiator (.callForProposal number description) net w) =
      andThen ((net.responder number).call description w) fun answer w =>
        (.ok ((), net.send (replyOf number answer)), w) := by
  rw [handle]
  split
  · next h => rw [h]; rfl
  · next h => rw [h]; rfl
  · next h => rw [h]; rfl

/-- The calls are made in order, and the answers line up behind what was queued. -/
theorem loop_calls (description : P) (numbers : List Nat) (net : Net W P)
    (messages queue : List (Message P)) (w : W) :
    loop initiator
        (net.past messages (numbers.map (.callForProposal · description) ++ queue)) w =
      andThen (askEach description (numbers.map net.responder) w) fun answers w =>
        loop initiator (net.past (messages ++ numbers.map (.callForProposal · description))
          (queue ++ List.zipWith replyOf numbers answers)) w := by
  induction numbers generalizing messages queue w with
  | nil => simp only [List.map_nil, askEach, andThen, List.zipWith_nil_left, List.append_nil,
      List.nil_append]
  | cons number numbers ih =>
    rw [List.map_cons, List.map_cons, List.cons_append, loop_cons, kept_handle_call, andThen_assoc,
      askEach, andThen_assoc]
    congr 1
    funext answer w
    rw [andThen_assoc, andThen, send_past, List.append_assoc, ih]
    congr 1
    funext answers w
    simp only [andThen, List.zipWith_cons_cons, List.append_assoc, List.cons_append,
      List.nil_append]

theorem handle_reply (number : Nat) (answer : Option P) (net : Net W P) (w : W) :
    handle initiator (replyOf number answer) net w =
      if net.answered + 1 = net.responders.length then
        evaluate initiator (net.counting [number] [answer]) w
      else (.ok (), net.counting [number] [answer], w) := by
  cases answer with
  | none =>
    have he : net.counting [number] [none] = { net with answered := net.answered + 1 } :=
      congrArg (fun l => { net with proposals := l, answered := net.answered + 1 })
        (List.append_nil net.proposals)
    rw [he]
    rfl
  | some bid => rfl

variable {net : Net W P} {messages queue : List (Message P)}

/-- An answer is counted and its bid put on record. -/
theorem handle_reply_more (number : Nat) (answer : Option P) (w : W)
    (hn : net.answered + 1 ≠ net.responders.length) :
    handle initiator (replyOf number answer) (net.past messages queue) w =
      (.ok (), (net.past messages queue).counting [number] [answer], w) := by
  rw [handle_reply]
  exact if_neg hn

/-- The last answer has the initiator choose. -/
theorem handle_reply_last (number : Nat) (answer : Option P) (w : W)
    (hn : net.answered + 1 = net.responders.length) :
    handle initiator (replyOf number answer) (net.past messages queue) w =
      evaluate initiator ((net.past messages queue).counting [number] [answer]) w := by
  rw [handle_reply]
  exact if_pos hn

/-- The answers are counted in order. None but the last has the initiator choose. -/
theorem loop_replies (numbers : List Nat) (answers : List (Option P)) (net : Net W P)
    (messages : List (Message P)) (w : W) (hl : answers.length = numbers.length)
    (hne : numbers ≠ []) (hn : net.answered + numbers.length = net.responders.length) :
    loop initiator (net.past messages (List.zipWith replyOf numbers answers)) w =
      andThen (kept (evaluate initiator ((net.past
          (messages ++ List.zipWith replyOf numbers answers) []).counting numbers answers) w))
        fun r w => loop initiator r.2 w := by
  induction numbers generalizing answers net messages w with
  | nil => exact absurd rfl hne
  | cons number numbers ih =>
    obtain ⟨answer, answers, rfl⟩ := List.exists_cons_of_length_eq_add_one hl
    rw [List.length_cons] at hn hl
    rw [List.zipWith_cons_cons, loop_cons]
    cases numbers with
    | nil =>
      obtain rfl := List.length_eq_zero_iff.mp (Nat.succ.inj hl)
      rw [handle_reply_last initiator number answer w hn, List.zipWith_nil_left]
    | cons next numbers =>
      have hmore : net.answered + 1 ≠ net.responders.length := by
        rw [List.length_cons] at hn
        omega
      have hrest : (net.counting [number] [answer]).answered + (next :: numbers).length =
          net.responders.length := by
        change net.answered + 1 + _ = _
        omega
      rw [handle_reply_more initiator number answer w hmore, past_counting]
      change loop initiator _ w = _
      rw [ih answers _ _ w (Nat.succ.inj hl) (List.cons_ne_nil _ _) hrest, past_counting,
        counting_counting, past_counting, List.append_assoc, List.cons_append, List.nil_append]

/-- The losers are told in order. -/
theorem loop_rejections (losers : List (Nat × P)) (net : Net W P)
    (messages queue : List (Message P)) (w : W) :
    loop initiator (net.past messages (losers.map rejection ++ queue)) w =
      andThen (rejectEach net.responder losers w) fun _ w =>
        loop initiator (net.past (messages ++ losers.map rejection) queue) w := by
  induction losers generalizing messages w with
  | nil => simp only [List.map_nil, rejectEach, andThen, List.append_nil, List.nil_append]
  | cons bid losers ih =>
    obtain ⟨number, bid⟩ := bid
    have hh : ∀ queue, kept (handle initiator (rejection (number, bid))
        (net.past (messages ++ [rejection (number, bid)]) queue) w) =
          andThen ((net.responder number).reject bid w) fun _ w =>
            (.ok ((), net.past (messages ++ [rejection (number, bid)]) queue), w) := by
      intro queue
      rw [rejection, handle]
      change kept (((net.responder number).reject bid w).1, _, ((net.responder number).reject bid w).2)
        = _
      obtain ⟨_ | _, w⟩ := (net.responder number).reject bid w <;> rfl
    rw [List.map_cons, List.cons_append, loop_cons, hh, andThen_assoc, rejectEach, andThen_assoc]
    congr 1
    funext _ w
    rw [andThen, ih, List.append_assoc, List.cons_append, List.nil_append]

/-- The net when the award in hand has been settled. -/
def settled (net : Net W P) (award : Award P) : Net W P :=
  { net with award := none, result := some (.awarded award.winner award.agreed award.done.isSome) }

/-- The winner performs, and the initiator hears of work that was done. -/
theorem loop_award {winner : Nat} {agreed : P} (w : W)
    (ha : net.award = some (winner, agreed)) :
    loop initiator (net.past messages [.acceptProposal winner agreed]) w =
      andThen ((net.responder winner).accept agreed w) fun done w =>
        andThen (tell initiator done w) fun _ w =>
          (.ok ((), (net.settled ⟨winner, agreed, done⟩).past (messages ++
            [.acceptProposal winner agreed, (Award.mk winner agreed done).report]) []), w) := by
  have hh : kept (handle initiator (.acceptProposal winner agreed)
      (net.past (messages ++ [.acceptProposal winner agreed]) []) w) =
        andThen ((net.responder winner).accept agreed w) fun done w =>
          (.ok ((), net.past (messages ++ [.acceptProposal winner agreed])
            [(Award.mk winner agreed done).report]), w) := by
    have hsame : ((net.past (messages ++ [.acceptProposal winner agreed]) []).responder
        winner).accept agreed w = (net.responder winner).accept agreed w := rfl
    rw [handle, hsame]
    obtain ⟨_ | _ | _, w⟩ := (net.responder winner).accept agreed w <;> rfl
  have hf : ∀ completed messages queue, (net.past messages queue).finish completed =
      { net with award := none, result := some (.awarded winner agreed completed) }.past
        messages queue := by
    intro completed messages queue
    have ha' : (net.past messages queue).award = some (winner, agreed) := ha
    rw [finish, ha']
    rfl
  rw [loop_cons, hh, andThen_assoc]
  congr 1
  funext done w
  rw [andThen, loop_cons]
  cases done with
  | none =>
    change loop initiator ((net.past _ []).finish false) w = _
    rw [hf, loop_nil initiator rfl, List.append_assoc]
    rfl
  | some work =>
    rw [show (Award.mk winner agreed (some work)).report = .informDone winner work from rfl,
      handle, tell]
    obtain ⟨_ | _, w⟩ := initiator.workDone work w
    · rfl
    · change loop initiator ((net.past _ []).finish true) w = _
      rw [hf, loop_nil initiator rfl, List.append_assoc]
      rfl

/-- The net of a round that found no winner. -/
def unresolved (net : Net W P) : Net W P :=
  { net.enter .noSolution with result := some .noSolution }

/-- The net when the losers and the winner have messages to come. -/
def awarding (net : Net W P) (losers : List (Nat × P)) (winner : Nat) (agreed : P) : Net W P :=
  { net with
    queue := net.queue ++ losers.map rejection ++ [Message.acceptProposal winner agreed]
    award := some (winner, agreed) }.enter .confirming

omit [Proposal P] in
theorem kept_giveUp (net : Net W P) (w : W) :
    kept (giveUp initiator net w) =
      andThen (initiator.noSolution w) fun _ w => (.ok ((), net.unresolved), w) := by
  rw [giveUp]
  obtain ⟨_ | _, w⟩ := initiator.noSolution w <;> rfl

omit [Proposal P] in
theorem rejections_eq (winner : Nat) (bids : List (Nat × P)) :
    rejections winner bids = (bids.eraseIdx winner).map rejection := by
  unfold rejections
  congr 1

omit [Proposal P] in
/-- Where every bidder has one bid, the others are those at other positions. -/
theorem eraseIdx_eq_filter {bids : List (Nat × P)} (h : (bids.map Prod.fst).Nodup)
    (i : Fin bids.length) : bids.eraseIdx i = bids.filter fun bid => bid.1 ≠ (bids.get i).1 := by
  induction bids with
  | nil => exact i.elim0
  | cons bid bids ih =>
    rw [List.map_cons, List.nodup_cons] at h
    refine i.cases ?_ ?_
    · have hall : ∀ other ∈ bids, decide (other.1 ≠ bid.1) = true := by
        intro other hother
        exact decide_eq_true fun he => h.1 (he ▸ List.mem_map_of_mem hother)
      change bids = (bid :: bids).filter fun other => other.1 ≠ bid.1
      rw [List.filter_cons_of_neg (by simp), List.filter_eq_self.mpr hall]
    · intro j
      have hne : bid.1 ≠ (bids.get j).1 := fun he =>
        h.1 (he ▸ List.mem_map_of_mem (List.get_mem bids j))
      change bid :: bids.eraseIdx j = (bid :: bids).filter fun other => other.1 ≠ (bids.get j).1
      rw [List.filter_cons_of_pos (by simpa using hne), ih h.2 j]

omit [Proposal P] in
theorem kept_awardTo (net : Net W P) (winner : Fin net.proposals.length) (best : P) (w : W)
    (hn : (net.proposals.map Prod.fst).Nodup) :
    kept (awardTo initiator net winner best w) =
      andThen (initiator.rescope best w) fun agreed w =>
        (.ok ((), net.awarding
          (net.proposals.filter fun bid => bid.1 ≠ (net.proposals.get winner).1)
          (net.proposals.get winner).1 agreed), w) := by
  rw [← eraseIdx_eq_filter hn, awardTo, rejections_eq]
  obtain ⟨_ | _, w⟩ := initiator.rescope best w <;> rfl

/-- What becomes of a net when its winner has been chosen, or none. -/
def decided (net : Net W P) : Option (Nat × P) → W → Attempt W (Unit × Net W P)
  | none, w => andThen (initiator.noSolution w) fun _ w => (.ok ((), net.unresolved), w)
  | some (winner, best), w =>
    andThen (initiator.rescope best w) fun agreed w =>
      (.ok ((), net.awarding (net.proposals.filter fun bid => bid.1 ≠ winner) winner agreed), w)

theorem kept_evaluate (net : Net W P) {description : P} (hd : net.description = some description)
    (hn : (net.proposals.map Prod.fst).Nodup) (w : W) :
    kept (evaluate initiator net w) =
      andThen (chooseAmong initiator description net.proposals w)
        (decided initiator (net.enter .evaluating)) := by
  have hd' : (net.enter .evaluating).description = some description := hd
  have hchoose : initiator.choose ((net.enter .evaluating).proposals.map Prod.snd) description w =
      initiator.choose (net.proposals.map Prod.snd) description w := rfl
  unfold evaluate chooseAmong
  simp only [hd']
  by_cases he : net.proposals.isEmpty
  · rw [if_pos he, if_pos (show (net.enter .evaluating).proposals.isEmpty from he)]
    exact kept_giveUp initiator _ w
  · rw [if_neg he, if_neg (show ¬ (net.enter .evaluating).proposals.isEmpty from he), hchoose]
    obtain ⟨_ | _ | best, w⟩ := initiator.choose (net.proposals.map Prod.snd) description w
    · rfl
    · exact kept_giveUp initiator _ w
    · have hf := @List.find?_eq_map_findFinIdx?_getElem _ net.proposals
        fun bid => Proposal.same bid.2 best
      simp only [andThen, Option.bind_some]
      split
      · next hw =>
        rw [hf, show net.proposals.findFinIdx? _ = none from hw]
        exact kept_giveUp initiator _ w
      · next winner hw =>
        rw [hf, show net.proposals.findFinIdx? _ = some winner from hw]
        exact kept_awardTo initiator (net.enter .evaluating) winner best w hn

/-- The net at the end of the loop, when the round is decided. -/
def concluded (net : Net W P) (messages : List (Message P)) (award : Option (Award P)) : Net W P :=
  match award with
  | none => (net.enter .evaluating).unresolved.past messages []
  | some a =>
    (((net.enter .evaluating).enter .confirming).settled a).past
      (messages ++ ((a.losers net.proposals).map rejection ++
        [.acceptProposal a.winner a.agreed, a.report])) []

/-- Once all answers are in, the rest of the loop is the conclusion of the course. -/
theorem loop_evaluate {net : Net W P} {description : P} (hd : net.description = some description)
    (hn : (net.proposals.map Prod.fst).Nodup) (messages : List (Message P)) (w : W) :
    andThen (kept (evaluate initiator (net.past messages []) w)) (fun r w => loop initiator r.2 w) =
      andThen (conclude initiator net.responder description net.proposals w) fun award w =>
        (.ok ((), net.concluded messages award), w) := by
  rw [kept_evaluate initiator (net.past messages []) hd hn, conclude, andThen_assoc,
    andThen_assoc]
  congr 1
  funext choice w
  cases choice with
  | none =>
    simp only [decided, andThen_assoc]
    congr 1
    funext _ w
    exact loop_nil initiator rfl w
  | some choice =>
    obtain ⟨winner, best⟩ := choice
    simp only [decided, perform, andThen_assoc]
    congr 1
    funext agreed w
    have ha := loop_rejections initiator (net.proposals.filter fun bid => bid.1 ≠ winner)
      ({ net.enter .evaluating with award := some (winner, agreed) }.enter .confirming) messages
      [.acceptProposal winner agreed] w
    refine ha.trans ?_
    congr 1
    funext _ w
    rw [loop_award initiator w rfl]
    congr 1
    funext done w
    congr 1
    funext _ w
    rw [List.append_assoc]
    rfl

/-- The net of an announced round without its queue. -/
def opened (net : Net W P) (description : P) : Net W P :=
  { net.reset.announce description with queue := [] }

omit [Proposal P] in
theorem map_responder_range (net : Net W P) :
    (List.range net.responders.length).map net.responder = net.responders := by
  apply List.ext_getElem
  · rw [List.length_map, List.length_range]
  · intro k hk _
    have hk' : k < net.responders.length := by simpa using hk
    rw [List.getElem_map, List.getElem_range, responder, List.getD_eq_getElem?_getD,
      List.getElem?_eq_getElem hk', Option.getD_some]

/-- The net when all have answered and the choice is to be made. -/
def answeredBy (net : Net W P) (description : P) (answers : List (Option P)) : Net W P :=
  (net.opened description).counting (List.range net.responders.length) answers

/-- The messages that have been handled by then. -/
def opening (n : Nat) (description : P) (answers : List (Option P)) : List (Message P) :=
  (List.range n).map (.callForProposal · description) ++
    List.zipWith replyOf (List.range n) answers

theorem loop_evaluate_answeredBy (net : Net W P) (description : P) (answers : List (Option P))
    (messages : List (Message P)) (w : W) :
    andThen (kept (evaluate initiator ((net.answeredBy description answers).past messages []) w))
        (fun r w => loop initiator r.2 w) =
      andThen (conclude initiator net.responder description
        (bidsOf (List.range net.responders.length) answers) w) fun award w =>
          (.ok ((), (net.answeredBy description answers).concluded messages award), w) :=
  loop_evaluate initiator rfl (bidders_nodup _ answers) messages w

theorem kept_run_of_eq_nil (net : Net W P) (h : net.responders = []) (w : W) :
    kept (run initiator net w) =
      andThen (kept (evaluate initiator net w)) fun r w => loop initiator r.2 w := by
  rw [run, if_pos (by rw [h]; rfl)]
  obtain ⟨_ | _, _, _⟩ := evaluate initiator net w <;> rfl

theorem kept_run_of_ne_nil (net : Net W P) (h : net.responders ≠ []) (w : W) :
    kept (run initiator net w) = loop initiator net w := by
  rw [run, if_neg (by simpa using h), loop]

/-- All are asked, all answers counted, and the round is concluded. Without responders the loop
has nothing to do, and the conclusion comes at once. -/
theorem kept_run (net : Net W P) (description : P) (w : W) :
    kept (run initiator (net.reset.announce description) w) =
      andThen (askEach description net.responders w) fun answers w =>
        andThen (conclude initiator net.responder description
          (bidsOf (List.range net.responders.length) answers) w) fun award w =>
            (.ok ((), (net.answeredBy description answers).concluded
              (opening net.responders.length description answers) award), w) := by
  have hopened : net.reset.announce description = (net.opened description).past []
      ((List.range net.responders.length).map (.callForProposal · description) ++ []) := by
    rw [List.append_nil]
    rfl
  by_cases he : net.responders = []
  · have hnone : net.reset.announce description =
        (net.answeredBy description []).past [] [] := by
      rw [hopened]
      simp only [answeredBy, counting, past, opened, he, List.length_nil, List.range_zero]
      rfl
    rw [kept_run_of_eq_nil initiator (net.reset.announce description) he, hnone,
      loop_evaluate_answeredBy, he]
    rfl
  · rw [kept_run_of_ne_nil initiator (net.reset.announce description) he, hopened,
      loop_calls]
    rw [show (List.range net.responders.length).map (net.opened description).responder =
      net.responders from map_responder_range net]
    apply andThen_congr
    intro answers w' ha
    rw [List.nil_append, List.nil_append, loop_replies initiator _ answers _ _ w'
      (by rw [length_of_askEach ha, List.length_range]) (by simpa using he)
      (by rw [List.length_range]; exact Nat.zero_add _), past_counting]
    exact loop_evaluate_answeredBy initiator net description answers _ w'

omit [Proposal P] in
/-- Closing the net that a course leaves. -/
theorem close_concluded (net : Net W P) (description : P) (answers : List (Option P))
    (award : Option (Award P)) (hl : answers.length = net.responders.length) :
    ((net.answeredBy description answers).concluded
        (opening net.responders.length description answers) award).close =
      ((Course.mk description answers award).result,
        (Course.mk description answers award).net net.responders) := by
  cases award <;>
    simp [close, concluded, answeredBy, opened, counting, past, enter, settled, unresolved, reset,
      announce, Course.result, Course.net, Course.transitions, Course.transcript, Course.calls,
      Course.replies, Course.closing, Course.bids, Course.size, opening, hl]

/-- A net that has run to its end, closed. -/
def closed : Attempt (Net W P × W) Unit → Attempt (Net W P × W) (Result P)
  | (.error fault, net, w) => (.error fault, net, w)
  | (.ok (), net, w) => (.ok net.close.1, net.close.2, w)

omit [Proposal P] in
theorem kept_closed (a : Attempt (Net W P × W) Unit) :
    kept (closed a) = andThen (kept a) fun r w => (.ok r.2.close, w) := by
  obtain ⟨_ | _, _, _⟩ := a <;> rfl

/-- A round without messages: its result, and the net that it leaves on record. -/
def round (net : Net W P) : Option P → W → Attempt W (Result P × Net W P)
  | none, w => (.ok (.noWork, net.reset), w)
  | some description, w =>
    andThen (course initiator net.responders description w) fun c w =>
      (.ok (c.result, c.net net.responders), w)

/-- A round is its course, and leaves the transcript of that on record. -/
theorem kept_solicit (net : Net W P) (w : W) :
    kept (solicit initiator net w) = andThen (initiator.describe w) (round initiator net) := by
  unfold solicit
  obtain ⟨_ | _ | description, w⟩ := initiator.describe w
  · rfl
  · rfl
  · change kept (closed (run initiator (net.reset.announce description) w)) =
      round initiator net (some description) w
    rw [kept_closed, kept_run, andThen_assoc, round, course, andThen_assoc]
    apply andThen_congr
    intro answers w' ha
    have hl := length_of_askEach ha
    rw [andThen_assoc, andThen_assoc, hl]
    change andThen (conclude initiator net.responder _ _ w') _ = andThen (conclude _ _ _ _ w') _
    congr 1
    funext award w
    rw [andThen, close_concluded net description answers award hl]
    rfl

section Endings

variable {initiator : Initiator W P} {description : P} {fault : Fault} {w w₁ w' : W}

theorem solicit_of_unasked (net : Net W P)
    (hdescribe : initiator.describe w = (.error fault, w')) :
    ∃ net', solicit initiator net w = (.error fault, net', w') := by
  have hkept := kept_solicit initiator net w
  rw [hdescribe] at hkept
  exact eq_error_of_kept hkept

theorem solicit_of_noWork (net : Net W P) (hdescribe : initiator.describe w = (.ok none, w')) :
    solicit initiator net w = (.ok .noWork, net.reset, w') := by
  have hkept := kept_solicit initiator net w
  rw [andThen_of_ok hdescribe] at hkept
  exact eq_ok_of_kept hkept

theorem solicit_of_course_error (net : Net W P)
    (hdescribe : initiator.describe w = (.ok (some description), w₁))
    (hcourse : course initiator net.responders description w₁ = (.error fault, w')) :
    ∃ net', solicit initiator net w = (.error fault, net', w') := by
  have hkept := kept_solicit initiator net w
  rw [andThen_of_ok hdescribe, round, hcourse] at hkept
  exact eq_error_of_kept hkept

theorem solicit_of_course (net : Net W P) {c : Course P}
    (hdescribe : initiator.describe w = (.ok (some description), w₁))
    (hcourse : course initiator net.responders description w₁ = (.ok c, w')) :
    solicit initiator net w = (.ok c.result, c.net net.responders, w') := by
  have hkept := kept_solicit initiator net w
  rw [andThen_of_ok hdescribe, round, andThen_of_ok hcourse] at hkept
  exact eq_ok_of_kept hkept

end Endings

/-- How a round can end. -/
inductive Ends (initiator : Initiator W P) (net : Net W P) (w : W) :
    Attempt (Net W P × W) (Result P) → Prop where
  /-- The question for work faults. -/
  | unasked {fault : Fault} {net' : Net W P} {w' : W}
    (hdescribe : initiator.describe w = (.error fault, w')) :
    Ends initiator net w (.error fault, net', w')
  /-- There is no work, and nothing but the reset takes place. -/
  | noWork {w' : W} (hdescribe : initiator.describe w = (.ok none, w')) :
    Ends initiator net w (.ok .noWork, net.reset, w')
  /-- The course breaks off. -/
  | brokenOff {description : P} {fault : Fault} {net' : Net W P} {w₁ w' : W}
    (hdescribe : initiator.describe w = (.ok (some description), w₁))
    (hcourse : course initiator net.responders description w₁ = (.error fault, w')) :
    Ends initiator net w (.error fault, net', w')
  /-- The course is on record. -/
  | concluded {description : P} {c : Course P} {w₁ w' : W}
    (hdescribe : initiator.describe w = (.ok (some description), w₁))
    (hcourse : course initiator net.responders description w₁ = (.ok c, w')) :
    Ends initiator net w (.ok c.result, c.net net.responders, w')

theorem ends_solicit (net : Net W P) (w : W) :
    Ends initiator net w (solicit initiator net w) := by
  rcases hdescribe : initiator.describe w with ⟨fault | _ | description, w₁⟩
  · obtain ⟨net', hs⟩ := solicit_of_unasked net hdescribe
    rw [hs]
    exact .unasked hdescribe
  · rw [solicit_of_noWork net hdescribe]
    exact .noWork hdescribe
  · rcases hcourse : course initiator net.responders description w₁ with ⟨fault | c, w'⟩
    · obtain ⟨net', hs⟩ := solicit_of_course_error net hdescribe hcourse
      rw [hs]
      exact .brokenOff hdescribe hcourse
    · rw [solicit_of_course net hdescribe hcourse]
      exact .concluded hdescribe hcourse

end Net

end DemandResponse.Negotiation
