import DemandResponse.Proofs.Negotiation.Observation
import DemandResponse.Proofs.Negotiation.Transcript

/-!
# The calls of a round

A clerk that waits for the answer puts every call on record with what was answered. What a round
among parties that are watched so leaves on record is an account of it: the work is described,
everybody is asked, and what follows depends on the bids and on the choice.
-/

namespace DemandResponse.Negotiation

variable {W P R α : Type}

/-- A call to a party, with what it was given and what it answered. -/
inductive Call (P : Type) where
  | describe (work : Option P)
  | choose (bids : List P) (description : P) (choice : Option P)
  | rescope (best agreed : P)
  | workDone (work : P)
  | noSolution
  | call (responder : Nat) (description : P) (answer : Option P)
  | accept (responder : Nat) (agreed : P) (done : Option P)
  | reject (responder : Nat) (bid : P)

/-- What is noted of a call that was answered. A call that faults is not noted. -/
def answered (note : α → R) : Except Fault α → List R
  | .ok answer => [note answer]
  | .error _ => []

/-- Notes the calls with their answers. -/
def Clerk.answers : Clerk P (Call P) where
  describe := answered .describe
  choose bids description := answered (.choose bids description)
  rescope best := answered (.rescope best)
  workDone work := answered fun _ => .workDone work
  noSolution := answered fun _ => .noSolution
  call responder description := answered (.call responder description)
  accept responder agreed := answered (.accept responder agreed)
  reject responder bid := answered fun _ => .reject responder bid

def Initiator.noted (initiator : Initiator W P) : Initiator (W × List (Call P)) P :=
  initiator.watched .answers

def Responder.noted (number : Nat) (responder : Responder W P) :
    Responder (W × List (Call P)) P :=
  responder.watched .answers number

/-- The net of the same round among responders whose answers are noted. -/
def Net.noted (net : Net W P) : Net (W × List (Call P)) P := net.watched .answers

theorem watching_of_ok {note : α → R} {ask : W → Attempt W α} {w w' : W} {answer : α}
    (h : ask w = (.ok answer, w')) (record : List R) :
    watching (answered note) ask (w, record) = (.ok answer, w', record ++ [note answer]) := by
  rw [watching, h]
  rfl

/-- The calls to some responders, and their answers. -/
def asking (description : P) (numbers : List Nat) (answers : List (Option P)) : List (Call P) :=
  List.zipWith (fun number answer => .call number description answer) numbers answers

def rejecting (bids : List (Nat × P)) : List (Call P) :=
  bids.map fun bid => .reject bid.1 bid.2

/-- What the initiator hears of the work. -/
def reporting (done : Option P) : List (Call P) := (done.map .workDone).toList

/-- The calls by which an award is made and carried out. -/
def performing (best : P) (a : Award P) (losers : List (Nat × P)) : List (Call P) :=
  [.rescope best a.agreed] ++ rejecting losers ++ [.accept a.winner a.agreed a.done] ++
    reporting a.done

/-- How a choice is made: its calls, and the winner with the bid that was chosen. -/
inductive Choice [Proposal P] (description : P) (bids : List (Nat × P)) :
    List (Call P) → Option (Nat × P) → Prop where
  | nobody (hbids : bids = []) : Choice description bids [] none
  | unwilling (hbids : bids ≠ []) :
    Choice description bids [.choose (bids.map Prod.snd) description none] none
  /-- What was chosen is no bid that was made. -/
  | unknown {best : P} (hbids : bids ≠ [])
    (hbest : ∀ bid ∈ bids, Proposal.same bid.2 best = false) :
    Choice description bids [.choose (bids.map Prod.snd) description (some best)] none
  /-- The winner made the first bid that is the same as the one chosen. -/
  | winner {before after : List (Nat × P)} {bid : Nat × P} {best : P}
    (hbids : bids = before ++ bid :: after) (hsame : Proposal.same bid.2 best = true)
    (hfirst : ∀ other ∈ before, Proposal.same other.2 best = false) :
    Choice description bids [.choose (bids.map Prod.snd) description (some best)]
      (some (bid.1, best))

/-- How a round ends after all have answered: its calls from then on, and the award. -/
inductive Ending [Proposal P] (description : P) (bids : List (Nat × P)) :
    List (Call P) → Option (Award P) → Prop where
  | resigned {choosing : List (Call P)} (hchoice : Choice description bids choosing none) :
    Ending description bids (choosing ++ [.noSolution]) none
  | awarded {choosing : List (Call P)} {best : P} {a : Award P}
    (hchoice : Choice description bids choosing (some (a.winner, best))) :
    Ending description bids (choosing ++ performing best a (a.losers bids)) (some a)

/-- The calls of a round with work. -/
def workCalls (description : P) (numbers : List Nat) (answers : List (Option P))
    (rest : List (Call P)) : List (Call P) :=
  .describe (some description) :: asking description numbers answers ++ rest

/-- An account of a round with `n` responders: its calls in their order, and its result. -/
inductive Account [Proposal P] (n : Nat) : List (Call P) → Result P → Prop where
  | noWork : Account n [.describe none] .noWork
  | work {description : P} {answers : List (Option P)} {rest : List (Call P)}
    {award : Option (Award P)} (hlength : answers.length = n)
    (hending : Ending description (bidsOf (List.range n) answers) rest award) :
    Account n (workCalls description (List.range n) answers rest)
      (Course.mk description answers award).result

section Parties

variable {initiator : Initiator W P} {w w' : W}

/-- Asking notes every call with its answer. -/
theorem askEach_noted {description : P} {responders : List (Responder W P)}
    {answers : List (Option P)} (h : askEach description responders w = (.ok answers, w'))
    (first : Nat) (calls : List (Call P)) :
    askEach description (responders.mapIdx fun k => Responder.noted (first + k)) (w, calls) =
      (.ok answers, w', calls ++
        asking description (List.range' first responders.length) answers) := by
  induction responders generalizing w answers first calls with
  | nil =>
    cases h
    rw [List.mapIdx_nil, asking, List.zipWith_nil_right, List.append_nil, askEach]
  | cons responder rest ih =>
    obtain ⟨answer, w₁, hanswer, h⟩ := andThen_eq_ok_iff.mp h
    obtain ⟨others, w₂, hothers, h⟩ := andThen_eq_ok_iff.mp h
    cases h
    have hfirst : (responder.noted first).call description (w, calls) =
        (.ok answer, w₁, calls ++ [.call first description answer]) := watching_of_ok hanswer calls
    have hnumber : (fun k => Responder.noted (W := W) (P := P) (first + (k + 1))) =
        fun k => Responder.noted (first + 1 + k) :=
      funext fun k => congrArg Responder.noted (by omega)
    rw [List.mapIdx_cons, hnumber, Nat.add_zero, askEach, andThen_of_ok hfirst,
      andThen_of_ok (ih hothers (first + 1) _), List.append_assoc]
    rfl

variable {responder : Nat → Responder W P} {responder' : Nat → Responder (W × List (Call P)) P}

theorem rejectEach_noted {losers : List (Nat × P)}
    (hr : ∀ bid ∈ losers, responder' bid.1 = (responder bid.1).noted bid.1)
    (h : rejectEach responder losers w = (.ok (), w')) (calls : List (Call P)) :
    rejectEach responder' losers (w, calls) = (.ok (), w', calls ++ rejecting losers) := by
  induction losers generalizing w calls with
  | nil =>
    cases h
    rw [rejecting, List.map_nil, List.append_nil, rejectEach]
  | cons bid losers ih =>
    obtain ⟨_, w₁, hreject, h⟩ := andThen_eq_ok_iff.mp h
    have hfirst : (responder' bid.1).reject bid.2 (w, calls) =
        (.ok (), w₁, calls ++ [.reject bid.1 bid.2]) := by
      rw [hr bid List.mem_cons_self]
      exact watching_of_ok hreject calls
    have hothers := ih (fun other hother => hr other (List.mem_cons_of_mem bid hother)) h
    rw [rejectEach, andThen_of_ok hfirst, hothers, List.append_assoc]
    rfl

theorem tell_noted {done : Option P} (h : tell initiator done w = (.ok (), w'))
    (calls : List (Call P)) :
    tell initiator.noted done (w, calls) = (.ok (), w', calls ++ reporting done) := by
  cases done with
  | none =>
    cases h
    rw [reporting, Option.map_none, Option.toList_none, List.append_nil, tell]
  | some work => exact watching_of_ok h calls

theorem perform_noted {bids : List (Nat × P)} {winner : Nat} {best : P} {award : Award P}
    (hr : ∀ k ∈ bids.map Prod.fst, responder' k = (responder k).noted k)
    (hwinner : winner ∈ bids.map Prod.fst)
    (h : perform initiator responder bids winner best w = (.ok award, w')) (calls : List (Call P)) :
    award.winner = winner ∧
      perform initiator.noted responder' bids winner best (w, calls) =
        (.ok award, w', calls ++ performing best award (award.losers bids)) := by
  obtain ⟨agreed, w₁, hrescope, h⟩ := andThen_eq_ok_iff.mp h
  obtain ⟨_, w₂, hreject, h⟩ := andThen_eq_ok_iff.mp h
  obtain ⟨done, w₃, haccept, h⟩ := andThen_eq_ok_iff.mp h
  obtain ⟨_, w₄, htell, h⟩ := andThen_eq_ok_iff.mp h
  cases h
  have hlosers : ∀ bid ∈ bids.filter (fun bid => bid.1 ≠ winner),
      responder' bid.1 = (responder bid.1).noted bid.1 :=
    fun bid hbid => hr bid.1 (List.mem_map_of_mem (List.mem_of_mem_filter hbid))
  have hagreed : initiator.noted.rescope best (w, calls) =
      (.ok agreed, w₁, calls ++ [.rescope best agreed]) := watching_of_ok hrescope calls
  have hdone : ∀ calls, (responder' winner).accept agreed (w₂, calls) =
      (.ok done, w₃, calls ++ [.accept winner agreed done]) := by
    intro calls
    rw [hr winner hwinner]
    exact watching_of_ok haccept calls
  refine ⟨rfl, ?_⟩
  rw [perform, andThen_of_ok hagreed, andThen_of_ok (rejectEach_noted hlosers hreject _),
    andThen_of_ok (hdone _), andThen_of_ok (tell_noted htell _), performing]
  simp only [List.append_assoc]
  rfl

variable [Proposal P] {description : P} {bids : List (Nat × P)}

/-- The choice is noted, if there is anything to choose from. -/
theorem chooseAmong_noted {choice : Option (Nat × P)}
    (h : chooseAmong initiator description bids w = (.ok choice, w')) (calls : List (Call P)) :
    ∃ choosing, chooseAmong initiator.noted description bids (w, calls) =
        (.ok choice, w', calls ++ choosing) ∧ Choice description bids choosing choice := by
  by_cases hbids : bids = []
  · subst hbids
    cases h
    exact ⟨[], by rw [List.append_nil]; rfl, .nobody rfl⟩
  rw [chooseAmong, if_neg (by simpa using hbids)] at h
  obtain ⟨answer, w₁, hanswer, h⟩ := andThen_eq_ok_iff.mp h
  cases h
  have hnoted : initiator.noted.choose (bids.map Prod.snd) description (w, calls) =
      (.ok answer, w', calls ++ [.choose (bids.map Prod.snd) description answer]) :=
    watching_of_ok hanswer calls
  refine ⟨[.choose (bids.map Prod.snd) description answer], ?_, ?_⟩
  · rw [chooseAmong, if_neg (by simpa using hbids), andThen_of_ok hnoted]
  cases answer with
  | none => exact .unwilling hbids
  | some best =>
    rw [Option.bind_some]
    cases hfind : bids.find? fun bid => Proposal.same bid.2 best with
    | none =>
      exact .unknown hbids fun bid hbid =>
        Bool.eq_false_iff.mpr (List.find?_eq_none.mp hfind bid hbid)
    | some bid =>
      obtain ⟨hsame, before, after, hsplit, hbefore⟩ := List.find?_eq_some_iff_append.mp hfind
      exact .winner hsplit hsame fun other hother => by simpa using hbefore other hother

/-- The conclusion notes how the round ends. -/
theorem conclude_noted {award : Option (Award P)}
    (hr : ∀ k ∈ bids.map Prod.fst, responder' k = (responder k).noted k)
    (h : conclude initiator responder description bids w = (.ok award, w'))
    (calls : List (Call P)) :
    ∃ rest, conclude initiator.noted responder' description bids (w, calls) =
        (.ok award, w', calls ++ rest) ∧ Ending description bids rest award := by
  obtain ⟨choice, w₁, hchoice, h⟩ := andThen_eq_ok_iff.mp h
  obtain ⟨choosing, hnoted, hending⟩ := chooseAmong_noted hchoice calls
  rw [conclude, andThen_of_ok hnoted]
  cases choice with
  | none =>
    obtain ⟨_, w₂, hnone, h⟩ := andThen_eq_ok_iff.mp h
    cases h
    have hresigned : initiator.noted.noSolution (w₁, calls ++ choosing) =
        (.ok (), w', calls ++ choosing ++ [.noSolution]) := watching_of_ok hnone _
    refine ⟨_, ?_, .resigned hending⟩
    rw [← List.append_assoc]
    exact andThen_of_ok hresigned _
  | some winner =>
    obtain ⟨winner, best⟩ := winner
    obtain ⟨a, w₂, hperform, h⟩ := andThen_eq_ok_iff.mp h
    cases h
    have hwinner : winner ∈ bids.map Prod.fst := fst_mem_of_chooseAmong hchoice
    obtain ⟨rfl, hperformed⟩ := perform_noted hr hwinner hperform (calls ++ choosing)
    refine ⟨_, ?_, .awarded hending⟩
    rw [← List.append_assoc]
    exact andThen_of_ok hperformed _

theorem course_noted {responders : List (Responder W P)} {c : Course P}
    (h : course initiator responders description w = (.ok c, w')) (calls : List (Call P)) :
    ∃ rest, course initiator.noted (responders.mapIdx Responder.noted) description (w, calls) =
          (.ok c, w', calls ++ (asking description (List.range c.size) c.answers ++ rest)) ∧
      Ending description c.bids rest c.award := by
  obtain ⟨answers, w₁, hanswers, h⟩ := andThen_eq_ok_iff.mp h
  obtain ⟨award, w₂, hconclude, h⟩ := andThen_eq_ok_iff.mp h
  cases h
  have hlength := length_of_askEach hanswers
  have hasked := askEach_noted hanswers 0 calls
  simp only [Nat.zero_add, ← List.range_eq_range'] at hasked
  have hr : ∀ k ∈ (bidsOf (List.range answers.length) answers).map Prod.fst,
      (responders.mapIdx Responder.noted).getD k .silent =
        (responders.getD k .silent).noted k := by
    intro k hk
    have hlt : k < responders.length :=
      hlength ▸ List.mem_range.mp ((bidders_sublist _ answers).subset hk)
    simp [hlt]
  obtain ⟨rest, hrest, hending⟩ := conclude_noted hr hconclude
    (calls ++ asking description (List.range responders.length) answers)
  refine ⟨rest, ?_, hending⟩
  rw [course, andThen_of_ok hasked, andThen_of_ok hrest, List.append_assoc, Course.size, hlength]

end Parties

end DemandResponse.Negotiation
