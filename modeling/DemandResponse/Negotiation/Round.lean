import DemandResponse.Negotiation.Net

/-!
# Running a round

The main statement about a single step is `load_handle`: whatever the parties do, the load of the
net after a message has been handled is below its load while the message was still queued. The
queue is therefore emptied, and `solicit` is total for arbitrary parties.
-/

namespace DemandResponse.Negotiation.Net

variable {W P : Type}

def weigh : List (Message P) → Nat
  | [] => 0
  | message :: rest => message.weight + weigh rest

/-- What choosing can still add to the queue: a message per bid, and one more for the award. -/
def choosing (net : Net W P) : Nat :=
  if net.answered < net.responders.length then net.proposals.length + 1 else 0

/-- A bound for the messages that are still to be handled. -/
def load (net : Net W P) : Nat := weigh net.queue + net.choosing

theorem weigh_cons (message : Message P) (rest : List (Message P)) :
    weigh (message :: rest) = message.weight + weigh rest := rfl

theorem weigh_append (a b : List (Message P)) : weigh (a ++ b) = weigh a + weigh b := by
  induction a with
  | nil => exact (Nat.zero_add _).symm
  | cons message rest ih => rw [List.cons_append, weigh_cons, weigh_cons, ih, Nat.add_assoc]

theorem weigh_rejections (winner : Nat) (proposals : List (Nat × P)) :
    weigh (rejections winner proposals) = (proposals.eraseIdx winner).length := by
  unfold rejections
  induction proposals.eraseIdx winner with
  | nil => rfl
  | cons bid rest ih =>
    rw [List.map_cons, weigh_cons, ih, List.length_cons]
    exact Nat.add_comm _ _

theorem load_send (net : Net W P) (message : Message P) :
    (net.send message).load = net.load + message.weight := by
  simp only [load, send, weigh_append, weigh_cons]
  simp only [choosing, weigh]
  omega

theorem load_enter (net : Net W P) (phase : Phase) : (net.enter phase).load = net.load := rfl

theorem load_finish (net : Net W P) (completed : Bool) :
    (net.finish completed).load = net.load := by
  unfold finish
  split <;> rfl

theorem load_giveUp {initiator : Initiator W P} {net net' : Net W P} {w w' : W}
    (h : giveUp initiator net w = (.ok (), net', w')) : net'.load = net.load := by
  unfold giveUp at h
  split at h
  · cases h
  · cases h
    rfl

/-- Awarding sends one message per losing bid, and one of weight two to the winner. -/
theorem load_awardTo {initiator : Initiator W P} {net net' : Net W P}
    {winner : Fin net.proposals.length} {best : P} {w w' : W}
    (h : awardTo initiator net winner best w = (.ok (), net', w')) :
    net'.load = net.load + net.proposals.length + 1 := by
  unfold awardTo at h
  simp only at h
  split at h
  · cases h
  · cases h
    have hw := winner.isLt
    have hl : (net.proposals.eraseIdx winner).length = net.proposals.length - 1 := by
      rw [List.length_eraseIdx_of_lt hw]
    change weigh (net.queue ++ rejections winner net.proposals ++ [_]) + net.choosing = _
    rw [weigh_append, weigh_append, weigh_rejections, hl, weigh_cons]
    simp only [load, Message.weight, weigh]
    omega

/-- A new bid adds at most one. -/
theorem load_proposals (net : Net W P) (bid : Nat × P) :
    ({ net with proposals := net.proposals ++ [bid] } : Net W P).load ≤ net.load + 1 := by
  simp only [load, choosing, List.length_append, List.length_singleton]
  split <;> omega

variable [Proposal P]

/-- Choosing adds at most a message per bid, and one more. -/
theorem load_evaluate {initiator : Initiator W P} {net net' : Net W P} {w w' : W}
    (h : evaluate initiator net w = (.ok (), net', w')) :
    net'.load ≤ net.load + net.proposals.length + 1 := by
  unfold evaluate at h
  simp only at h
  split at h
  · cases h
    rw [load_enter]
    omega
  · split at h
    · rw [load_giveUp h, load_enter]
      omega
    · split at h
      · cases h
      · rw [load_giveUp h, load_enter]
        omega
      · split at h
        · rw [load_giveUp h, load_enter]
          omega
        · rw [load_awardTo h, load_enter]
          exact Nat.le_refl _

/-- Counting an answer adds nothing that the load had not allowed for. -/
theorem load_countAnswer {initiator : Initiator W P} {net net' : Net W P} {w w' : W}
    (h : countAnswer initiator net w = (.ok (), net', w')) : net'.load ≤ net.load := by
  unfold countAnswer at h
  simp only at h
  split at h
  · next hn =>
    have he := load_evaluate h
    have hnone : ¬ net.answered + 1 < net.responders.length := by omega
    have hsome : net.answered < net.responders.length := by omega
    have hafter : net'.load ≤ weigh net.queue + (if net.answered + 1 < net.responders.length then
      net.proposals.length + 1 else 0) + net.proposals.length + 1 := he
    rw [if_neg hnone] at hafter
    rw [show net.load = weigh net.queue + (net.proposals.length + 1) from
      congrArg (weigh net.queue + ·) (if_pos hsome)]
    omega
  · next hn =>
    cases h
    refine Nat.add_le_add_left ?_ _
    change (if net.answered + 1 < net.responders.length then net.proposals.length + 1 else 0) ≤ _
    unfold choosing
    split <;> split <;> omega

/-- Handling a message takes more off the load than it adds. -/
theorem load_handle {initiator : Initiator W P} {message : Message P} {net net' : Net W P}
    {w w' : W} (h : handle initiator message net w = (.ok (), net', w')) :
    net'.load < net.load + message.weight := by
  cases message with
  | callForProposal number description =>
    simp only [handle] at h
    split at h
    · cases h
    · cases h
      rw [load_send]
      simp only [Message.weight]
      omega
    · cases h
      rw [load_send]
      simp only [Message.weight]
      omega
  | refuse number =>
    have hc := load_countAnswer h
    simp only [Message.weight]
    omega
  | propose number proposal =>
    have hc := load_countAnswer h
    have hp := load_proposals net (number, proposal)
    simp only [Message.weight]
    omega
  | rejectProposal number proposal =>
    obtain rfl : net = net' := congrArg (fun r => r.2.1) h
    exact Nat.lt_succ_self _
  | acceptProposal number proposal =>
    simp only [handle] at h
    split at h
    · cases h
    · cases h
      rw [load_send]
      simp only [Message.weight]
      omega
    · cases h
      rw [load_send]
      simp only [Message.weight]
      omega
  | informDone number proposal =>
    simp only [handle] at h
    split at h
    · cases h
    · cases h
      rw [load_finish]
      exact Nat.lt_succ_self _
  | failure number =>
    simp only [handle] at h
    cases h
    rw [load_finish]
    exact Nat.lt_succ_self _

/-- The net with its oldest message taken from the queue and put on record. -/
def taking (net : Net W P) (message : Message P) (rest : List (Message P)) : Net W P :=
  { net with queue := rest, transcript := net.transcript ++ [message] }

def drain (initiator : Initiator W P) (net : Net W P) (w : W) : Attempt (Net W P × W) Unit :=
  match hq : net.queue with
  | [] => (.ok (), net, w)
  | message :: rest =>
    match hs : handle initiator message (net.taking message rest) w with
    | (.error fault, net', w') => (.error fault, net', w')
    | (.ok (), net', w') =>
      have : net'.load < net.load := by
        have h : net'.load < weigh rest + net.choosing + message.weight := load_handle hs
        rw [show net.load = message.weight + weigh rest + net.choosing by
          rw [load, hq, weigh_cons]]
        omega
      drain initiator net' w'
termination_by net.load

def close (net : Net W P) : Result P × Net W P :=
  let net := net.enter .idle
  (net.result.getD .noSolution, { net with result := none })

/-- Handle the messages of an announced round. With nobody to ask, every answer is already in. -/
def run (initiator : Initiator W P) (net : Net W P) (w : W) : Attempt (Net W P × W) Unit :=
  if net.responders.isEmpty then
    match evaluate initiator net w with
    | (.error fault, net, w) => (.error fault, net, w)
    | (.ok (), net, w) => drain initiator net w
  else drain initiator net w

def solicit (initiator : Initiator W P) (net : Net W P) (w : W) :
    Attempt (Net W P × W) (Result P) :=
  let net := net.reset
  match initiator.describe w with
  | (.error fault, w) => (.error fault, net, w)
  | (.ok none, w) => (.ok .noWork, net, w)
  | (.ok (some description), w) =>
    match run initiator (net.announce description) w with
    | (.error fault, net, w) => (.error fault, net, w)
    | (.ok (), net, w) =>
      let (result, net) := net.close
      (.ok result, net, w)

end DemandResponse.Negotiation.Net
