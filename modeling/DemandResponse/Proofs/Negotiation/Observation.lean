import DemandResponse.Proofs.Negotiation.Turns

/-!
# A round under observation

A party that is watched does what the party does that it stands for, and a clerk puts on record what
it makes of every call and its answer. Watching changes nothing: a watched round ends as the round
itself, in the same world and with the same net, also where a party faults. What is put on record is
up to the clerk. One of them lists the calls, whatever comes of them.
-/

namespace DemandResponse.Negotiation

variable {W P R α : Type}

/-- What is put on record of every kind of call, by what the party is given and what it answers. -/
structure Clerk (P R : Type) where
  describe : Except Fault (Option P) → List R
  choose (bids : List P) (description : P) : Except Fault (Option P) → List R
  rescope (best : P) : Except Fault P → List R
  workDone (work : P) : Except Fault Unit → List R
  noSolution : Except Fault Unit → List R
  call (responder : Nat) (description : P) : Except Fault (Option P) → List R
  accept (responder : Nat) (agreed : P) : Except Fault (Option P) → List R
  reject (responder : Nat) (bid : P) : Except Fault Unit → List R

/-- Carry out a call, and put something on record of it. -/
def watching (note : Except Fault α → List R) (ask : W → Attempt W α) :
    W × List R → Attempt (W × List R) α
  | (w, record) => ((ask w).1, (ask w).2, record ++ note (ask w).1)

def Initiator.watched (clerk : Clerk P R) (initiator : Initiator W P) :
    Initiator (W × List R) P where
  describe := watching clerk.describe initiator.describe
  choose bids description :=
    watching (clerk.choose bids description) (initiator.choose bids description)
  rescope best := watching (clerk.rescope best) (initiator.rescope best)
  workDone work := watching (clerk.workDone work) (initiator.workDone work)
  noSolution := watching clerk.noSolution initiator.noSolution

def Responder.watched (clerk : Clerk P R) (number : Nat) (responder : Responder W P) :
    Responder (W × List R) P where
  call description := watching (clerk.call number description) (responder.call description)
  accept agreed := watching (clerk.accept number agreed) (responder.accept agreed)
  reject bid := watching (clerk.reject number bid) (responder.reject bid)

/-- The same net among responders that are watched. -/
def Net.watched (clerk : Clerk P R) (net : Net W P) : Net (W × List R) P :=
  { net with responders := net.responders.mapIdx (Responder.watched clerk) }

/-- A call to a party, with what the party is given. -/
inductive Approach (P : Type) where
  | describe
  | choose (bids : List P) (description : P)
  | rescope (best : P)
  | workDone (work : P)
  | noSolution
  | call (responder : Nat) (description : P)
  | accept (responder : Nat) (agreed : P)
  | reject (responder : Nat) (bid : P)

/-- Lists the calls. -/
def Clerk.approaches : Clerk P (Approach P) where
  describe _ := [.describe]
  choose bids description _ := [.choose bids description]
  rescope best _ := [.rescope best]
  workDone work _ := [.workDone work]
  noSolution _ := [.noSolution]
  call responder description _ := [.call responder description]
  accept responder agreed _ := [.accept responder agreed]
  reject responder bid _ := [.reject responder bid]

def Initiator.observed (initiator : Initiator W P) : Initiator (W × List (Approach P)) P :=
  initiator.watched .approaches

def Net.observed (net : Net W P) : Net (W × List (Approach P)) P := net.watched .approaches

/-- A watched party answers as the party does, in the same world. The record only grows. -/
def Echoes (record : List R) (a : Attempt W α) (a' : Attempt (W × List R) α) : Prop :=
  ∃ more, a' = (a.1, a.2, record ++ more)

theorem watching_echoes (note : Except Fault α → List R) (ask : W → Attempt W α) (w : W)
    (record : List R) : Echoes record (ask w) (watching note ask (w, record)) :=
  ⟨note (ask w).1, rfl⟩

namespace Net

variable {clerk : Clerk P R}

/-- A watched attempt ends as the attempt itself, with the net watched too. -/
def Reflects (clerk : Clerk P R) (record : List R) (a : Attempt (Net W P × W) α)
    (a' : Attempt (Net (W × List R) P × W × List R) α) : Prop :=
  ∃ more, a' = (a.1, a.2.1.watched clerk, a.2.2, record ++ more)

theorem Reflects.still (net : Net W P) {record : List R} {answer : Except Fault α} {w : W} :
    Reflects clerk record (answer, net, w) (answer, net.watched clerk, w, record) :=
  ⟨[], by rw [List.append_nil]⟩

/-- What is added behind something that was added is added behind the record before. -/
theorem Reflects.trans {record more : List R} {a : Attempt (Net W P × W) α}
    {a' : Attempt (Net (W × List R) P × W × List R) α}
    (h : Reflects clerk (record ++ more) a a') : Reflects clerk record a a' := by
  obtain ⟨rest, rfl⟩ := h
  exact ⟨more ++ rest, by rw [List.append_assoc]⟩

theorem length_responders_watched (net : Net W P) :
    (net.watched clerk).responders.length = net.responders.length :=
  List.length_mapIdx

theorem enter_watched (net : Net W P) (phase : Phase) :
    (net.watched clerk).enter phase = (net.enter phase).watched clerk := by
  rw [enter, length_responders_watched]
  rfl

theorem finish_watched (net : Net W P) (completed : Bool) :
    (net.watched clerk).finish completed = (net.finish completed).watched clerk := by
  have haward : (net.watched clerk).award = net.award := rfl
  unfold finish
  rw [haward]
  cases net.award <;> rfl

theorem announce_watched (net : Net W P) (description : P) :
    (net.watched clerk).announce description = (net.announce description).watched clerk := by
  simp only [announce, watched, enter, List.length_mapIdx]

theorem close_watched (net : Net W P) :
    (net.watched clerk).close = (net.close.1, net.close.2.watched clerk) := by
  rw [close, enter_watched]
  rfl

/-- Whoever is asked echoes. Beyond the last responder there is nobody to watch, and nobody who
would change anything. -/
theorem responder_echoes (clerk : Clerk P R) (net : Net W P) (number : Nat) (p : P) (w : W)
    (record : List R) :
    Echoes record ((net.responder number).call p w)
        (((net.watched clerk).responder number).call p (w, record)) ∧
      Echoes record ((net.responder number).accept p w)
        (((net.watched clerk).responder number).accept p (w, record)) ∧
      Echoes record ((net.responder number).reject p w)
        (((net.watched clerk).responder number).reject p (w, record)) := by
  by_cases h : number < net.responders.length
  · have hr : (net.watched clerk).responder number =
        (net.responder number).watched clerk number := by
      simp [watched, responder, h]
    rw [hr]
    exact ⟨watching_echoes _ _ w record, watching_echoes _ _ w record,
      watching_echoes _ _ w record⟩
  · have hr : net.responder number = .silent := by
      simp [responder, Nat.le_of_not_lt h]
    have hr' : (net.watched clerk).responder number = .silent := by
      simp [watched, responder, Nat.le_of_not_lt h]
    rw [hr, hr']
    exact ⟨⟨[], by rw [List.append_nil]; rfl⟩, ⟨[], by rw [List.append_nil]; rfl⟩,
      ⟨[], by rw [List.append_nil]; rfl⟩⟩

variable {initiator : Initiator W P} {w : W} {record : List R}

theorem reflects_giveUp (net : Net W P) :
    Reflects clerk record (giveUp initiator net w)
      (giveUp (initiator.watched clerk) (net.watched clerk) (w, record)) := by
  obtain ⟨more, hask⟩ : Echoes record (initiator.noSolution w)
      ((initiator.watched clerk).noSolution (w, record)) := watching_echoes _ _ w record
  unfold giveUp
  rw [hask, enter_watched]
  obtain ⟨_ | _, w'⟩ := initiator.noSolution w <;> exact ⟨more, rfl⟩

theorem reflects_awardTo (net : Net W P) (winner : Fin net.proposals.length) (best : P) :
    Reflects clerk record (awardTo initiator net winner best w)
      (awardTo (initiator.watched clerk) (net.watched clerk) winner best (w, record)) := by
  obtain ⟨more, hask⟩ : Echoes record (initiator.rescope best w)
      ((initiator.watched clerk).rescope best (w, record)) := watching_echoes _ _ w record
  unfold awardTo
  rw [hask]
  obtain ⟨_ | award, w'⟩ := initiator.rescope best w
  · exact ⟨more, rfl⟩
  · refine ⟨more, ?_⟩
    simp only [← enter_watched]
    rfl

variable [Proposal P]

theorem reflects_evaluate (net : Net W P) :
    Reflects clerk record (evaluate initiator net w)
      (evaluate (initiator.watched clerk) (net.watched clerk) (w, record)) := by
  unfold evaluate
  dsimp only
  rw [enter_watched]
  generalize net.enter .evaluating = entered
  rw [show (entered.watched clerk).description = entered.description from rfl]
  cases entered.description with
  | none => exact .still _
  | some description =>
    dsimp only
    rw [show (entered.watched clerk).proposals.isEmpty = entered.proposals.isEmpty from rfl]
    split
    · exact reflects_giveUp entered
    · obtain ⟨more, hask⟩ : Echoes record
          (initiator.choose (entered.proposals.map Prod.snd) description w)
          ((initiator.watched clerk).choose ((entered.watched clerk).proposals.map Prod.snd)
            description (w, record)) := watching_echoes _ _ w record
      rw [hask]
      obtain ⟨_ | _ | best, w'⟩ := initiator.choose (entered.proposals.map Prod.snd) description w
      · exact ⟨more, rfl⟩
      · exact (reflects_giveUp entered).trans
      · dsimp only
        split
        · next hnone =>
          rw [show (entered.watched clerk).proposals.findFinIdx?
            (fun bid => Proposal.same bid.2 best) = none from hnone]
          exact (reflects_giveUp entered).trans
        · next winner hwinner =>
          rw [show (entered.watched clerk).proposals.findFinIdx?
            (fun bid => Proposal.same bid.2 best) = some winner from hwinner]
          exact (reflects_awardTo entered winner best).trans

theorem reflects_countAnswer (net : Net W P) :
    Reflects clerk record (countAnswer initiator net w)
      (countAnswer (initiator.watched clerk) (net.watched clerk) (w, record)) := by
  have hanswered : (net.watched clerk).answered = net.answered := rfl
  unfold countAnswer
  dsimp only
  rw [length_responders_watched, hanswered]
  split
  · exact reflects_evaluate { net with answered := net.answered + 1 }
  · exact .still { net with answered := net.answered + 1 }

theorem reflects_handle (net : Net W P) (message : Message P) :
    Reflects clerk record (handle initiator message net w)
      (handle (initiator.watched clerk) message (net.watched clerk) (w, record)) := by
  cases message with
  | callForProposal number description =>
    obtain ⟨⟨more, hask⟩, _, _⟩ := net.responder_echoes clerk number description w record
    rw [handle, handle, hask]
    obtain ⟨_ | _ | bid, w'⟩ := (net.responder number).call description w <;> exact ⟨more, rfl⟩
  | refuse number => exact reflects_countAnswer net
  | propose number proposal =>
    exact reflects_countAnswer { net with proposals := net.proposals ++ [(number, proposal)] }
  | rejectProposal number proposal =>
    obtain ⟨_, _, more, hask⟩ := net.responder_echoes clerk number proposal w record
    rw [handle, handle, hask]
    exact ⟨more, rfl⟩
  | acceptProposal number proposal =>
    obtain ⟨_, ⟨more, hask⟩, _⟩ := net.responder_echoes clerk number proposal w record
    rw [handle, handle, hask]
    obtain ⟨_ | _ | done, w'⟩ := (net.responder number).accept proposal w <;> exact ⟨more, rfl⟩
  | informDone number proposal =>
    obtain ⟨more, hask⟩ : Echoes record (initiator.workDone proposal w)
        ((initiator.watched clerk).workDone proposal (w, record)) := watching_echoes _ _ w record
    rw [handle, handle, hask]
    obtain ⟨_ | _, w'⟩ := initiator.workDone proposal w
    · exact ⟨more, rfl⟩
    · exact ⟨more, by rw [finish_watched]⟩
  | failure number =>
    rw [handle, handle, finish_watched]
    exact .still _

theorem reflects_drain (net : Net W P) :
    Reflects clerk record (drain initiator net w)
      (drain (initiator.watched clerk) (net.watched clerk) (w, record)) := by
  fun_induction drain initiator net w generalizing record with
  | case1 net w hq =>
    rw [drain_nil (show (net.watched clerk).queue = [] from hq)]
    exact .still _
  | case2 net w message rest hq fault net' w' hs =>
    rw [drain_cons (show (net.watched clerk).queue = message :: rest from hq)]
    obtain ⟨more, hmore⟩ : Reflects clerk record
        (handle initiator message (net.taking message rest) w) _ := reflects_handle _ message
    rw [hs] at hmore
    exact ⟨more, congrArg (andThen · fun _ s => drain (initiator.watched clerk) s.1 s.2) hmore⟩
  | case3 net w message rest hq net' w' hs hlt ih =>
    rw [drain_cons (show (net.watched clerk).queue = message :: rest from hq)]
    obtain ⟨more, hmore⟩ : Reflects clerk record
        (handle initiator message (net.taking message rest) w) _ := reflects_handle _ message
    rw [hs] at hmore
    rw [show handle (initiator.watched clerk) message ((net.watched clerk).taking message rest)
      (w, record) = _ from hmore]
    exact ih.trans

theorem reflects_run (net : Net W P) :
    Reflects clerk record (run initiator net w)
      (run (initiator.watched clerk) (net.watched clerk) (w, record)) := by
  have hempty : (net.watched clerk).responders.isEmpty = net.responders.isEmpty := by
    rw [Bool.eq_iff_iff, List.isEmpty_iff_length_eq_zero, List.isEmpty_iff_length_eq_zero,
      length_responders_watched]
  unfold run
  rw [hempty]
  split
  · obtain ⟨more, hmore⟩ : Reflects clerk record (evaluate initiator net w) _ :=
      reflects_evaluate net
    rw [hmore]
    obtain ⟨_ | _, net', w'⟩ := evaluate initiator net w
    · exact ⟨more, rfl⟩
    · exact (reflects_drain net').trans
  · exact reflects_drain net

/-- Watching changes nothing: a watched round answers as the round itself, in the same world and
with the same net, and only adds to the record. -/
theorem reflects_solicit (net : Net W P) :
    Reflects clerk record (solicit initiator net w)
      (solicit (initiator.watched clerk) (net.watched clerk) (w, record)) := by
  have hreset : (net.watched clerk).reset = net.reset.watched clerk := rfl
  obtain ⟨more, hask⟩ : Echoes record (initiator.describe w)
      ((initiator.watched clerk).describe (w, record)) := watching_echoes _ _ w record
  unfold solicit
  dsimp only
  rw [hask, hreset]
  obtain ⟨_ | _ | description, w'⟩ := initiator.describe w
  · exact ⟨more, rfl⟩
  · exact ⟨more, rfl⟩
  · dsimp only
    rw [announce_watched]
    obtain ⟨more', hmore'⟩ : Reflects clerk (record ++ more)
        (run initiator (net.reset.announce description) w') _ := reflects_run _
    rw [hmore', List.append_assoc]
    obtain ⟨_ | _, net', w''⟩ := run initiator (net.reset.announce description) w'
    · exact ⟨_, rfl⟩
    · dsimp only
      rw [close_watched]
      exact ⟨_, rfl⟩

end Net

end DemandResponse.Negotiation
