import DemandResponse.Proofs.Negotiation.Calls

/-!
# How the hooks and the result belong together

The initiator takes part in a round through five hooks. Which of them are called, how often and
with what, is settled by the bids, the choice and the winner's report, and so is the result. An
account of a round shows both at once.
-/

namespace DemandResponse.Negotiation

variable {W P : Type}

namespace Call

def describes : Call P → Bool
  | .describe _ => true
  | _ => false

def chooses : Call P → Bool
  | .choose _ _ _ => true
  | _ => false

def rescopes : Call P → Bool
  | .rescope _ _ => true
  | _ => false

def reports : Call P → Bool
  | .workDone _ => true
  | _ => false

def resigns : Call P → Bool
  | .noSolution => true
  | _ => false

def awards : Call P → Bool
  | .accept _ _ _ => true
  | _ => false

/-- The bid that a call was answered with, and who made it. -/
def bid? : Call P → Option (Nat × P)
  | .call responder _ answer => answer.map (responder, ·)
  | _ => none

end Call

/-- All bids of a round, in the order in which the responders were asked. -/
def bidsMade (calls : List (Call P)) : List (Nat × P) := calls.filterMap Call.bid?

/-- How the calls of a round and its result belong together. -/
structure Hooked [Proposal P] (calls : List (Call P)) (result : Result P) : Prop where
  /-- The initiator is asked for work once, and there is no round without it. -/
  described : ∃ work, calls.filter Call.describes = [.describe work] ∧
    (result = .noWork ↔ work = none)
  unchosen : bidsMade calls = [] → calls.filter Call.chooses = []
  /-- It chooses once if there are bids, among all of them, for the work that it described. -/
  chosen : bidsMade calls ≠ [] → ∃ description choice,
    calls.filter Call.describes = [.describe (some description)] ∧
    calls.filter Call.chooses = [.choose ((bidsMade calls).map Prod.snd) description choice]
  /-- It is told once if there is no solution. -/
  resigned : result = .noSolution → calls.filter Call.resigns = [.noSolution]
  unresigned : result ≠ .noSolution → calls.filter Call.resigns = []
  /-- There is no solution to work for which nobody bids, or of which the choice is no bid. -/
  noSolution_iff : result = .noSolution ↔
    (∃ description, calls.filter Call.describes = [.describe (some description)]) ∧
      (bidsMade calls = [] ∨ ∃ bids description choice,
        calls.filter Call.chooses = [.choose bids description choice] ∧
        ∀ best, choice = some best → ∀ bid ∈ bidsMade calls, Proposal.same bid.2 best = false)
  /-- The winner made the first bid that is the same as the choice. What the initiator makes of
  the choice is awarded and is the proposal of the result, and the initiator hears of the work
  that the winner reports. -/
  awarded : ∀ winner agreed completed, result = .awarded winner agreed completed →
    ∃ before bid after bids description best done,
      bidsMade calls = before ++ (winner, bid) :: after ∧
      calls.filter Call.chooses = [.choose bids description (some best)] ∧
      Proposal.same bid best = true ∧ (∀ other ∈ before, Proposal.same other.2 best = false) ∧
      calls.filter Call.rescopes = [.rescope best agreed] ∧
      calls.filter Call.awards = [.accept winner agreed done] ∧
      calls.filter Call.reports = reporting done ∧ completed = done.isSome
  /-- Without an award nothing of this is called. -/
  unawarded : (∀ winner agreed completed, result ≠ .awarded winner agreed completed) →
    calls.filter Call.rescopes = [] ∧ calls.filter Call.awards = [] ∧
      calls.filter Call.reports = []

section Segments

variable (description : P) (numbers : List Nat) (answers : List (Option P))

theorem filter_asking {p : Call P → Bool}
    (hp : ∀ number description answer, p (.call number description answer) = false) :
    (asking description numbers answers).filter p = [] := by
  rw [List.filter_eq_nil_iff]
  intro call hcall
  rw [asking, ← List.map_uncurry_zip_eq_zipWith] at hcall
  obtain ⟨⟨number, answer⟩, _, rfl⟩ := List.mem_map.mp hcall
  simp [hp]

theorem filter_rejecting {p : Call P → Bool}
    (hp : ∀ number bid, p (.reject number bid) = false) (bids : List (Nat × P)) :
    (rejecting bids).filter p = [] := by
  rw [List.filter_eq_nil_iff]
  intro call hcall
  obtain ⟨bid, _, rfl⟩ := List.mem_map.mp hcall
  simp [hp]

theorem filter_reporting {p : Call P → Bool} (hp : ∀ work, p (.workDone work) = false)
    (done : Option P) : (reporting done).filter p = [] := by
  cases done with
  | none => rfl
  | some work => exact List.filter_cons_of_neg (by simp [hp])

theorem filter_reports_reporting (done : Option P) :
    (reporting done).filter Call.reports = reporting done := by
  cases done <;> rfl

/-- Of an award, the initiator and the winner are told of all but the rejections. -/
theorem filter_performing {p : Call P → Bool} (hp : ∀ number bid, p (.reject number bid) = false)
    (best : P) (a : Award P) (losers : List (Nat × P)) :
    (performing best a losers).filter p =
      [.rescope best a.agreed, .accept a.winner a.agreed a.done].filter p ++
        (reporting a.done).filter p := by
  rw [performing, List.filter_append, List.filter_append, List.filter_append,
    filter_rejecting hp, List.append_nil, ← List.filter_append]
  rfl

theorem bidsMade_append (calls rest : List (Call P)) :
    bidsMade (calls ++ rest) = bidsMade calls ++ bidsMade rest :=
  List.filterMap_append

theorem bidsMade_asking :
    bidsMade (asking description numbers answers) = bidsOf numbers answers := by
  rw [bidsMade, asking, bidsOf, ← List.map_uncurry_zip_eq_zipWith, List.filterMap_map]
  rfl

theorem bidsMade_rejecting (bids : List (Nat × P)) : bidsMade (rejecting bids) = [] := by
  rw [bidsMade, rejecting, List.filterMap_map, List.filterMap_eq_nil_iff]
  intro bid _
  rfl

theorem bidsMade_performing (best : P) (a : Award P) (losers : List (Nat × P)) :
    bidsMade (performing best a losers) = [] := by
  rw [performing, bidsMade_append, bidsMade_append, bidsMade_append, bidsMade_rejecting]
  cases hdone : a.done <;> rfl

end Segments

namespace Choice

variable [Proposal P] {description : P} {bids : List (Nat × P)} {choosing : List (Call P)}
  {winner : Option (Nat × P)}

theorem filter_chooses (h : Choice description bids choosing winner) :
    choosing.filter Call.chooses = choosing := by
  cases h <;> rfl

theorem filter_of_not {p : Call P → Bool} (h : Choice description bids choosing winner)
    (hp : ∀ bids description choice, p (.choose bids description choice) = false) :
    choosing.filter p = [] := by
  cases h <;> simp [hp]

theorem bidsMade_eq (h : Choice description bids choosing winner) : bidsMade choosing = [] := by
  cases h <;> rfl

/-- Without bids there is no choice. -/
theorem eq_nil (h : Choice description bids choosing winner) (hbids : bids = []) :
    choosing = [] := by
  cases h with
  | nobody => rfl
  | unwilling hne => exact absurd hbids hne
  | unknown hne => exact absurd hbids hne
  | winner hsplit => exact absurd (hsplit.symm.trans hbids) (by simp)

/-- With bids there is one, among all of them. -/
theorem exists_eq (h : Choice description bids choosing winner) (hbids : bids ≠ []) :
    ∃ choice, choosing = [.choose (bids.map Prod.snd) description choice] := by
  cases h with
  | nobody he => exact absurd he hbids
  | unwilling => exact ⟨_, rfl⟩
  | unknown => exact ⟨_, rfl⟩
  | winner => exact ⟨_, rfl⟩

/-- Nobody wins if nothing was chosen or what was chosen is no bid. -/
theorem of_none (h : Choice description bids choosing none) :
    bids = [] ∨ ∃ choice, choosing = [.choose (bids.map Prod.snd) description choice] ∧
      ∀ best, choice = some best → ∀ bid ∈ bids, Proposal.same bid.2 best = false := by
  cases h with
  | nobody hbids => exact Or.inl hbids
  | unwilling => exact Or.inr ⟨none, rfl, fun best hbest => nomatch hbest⟩
  | unknown _ hbest => exact Or.inr ⟨_, rfl, fun best h => Option.some.inj h ▸ hbest⟩

/-- Somebody wins with the first bid that is the same as the one chosen. -/
theorem of_some {number : Nat} {best : P}
    (h : Choice description bids choosing (some (number, best))) :
    choosing = [.choose (bids.map Prod.snd) description (some best)] ∧
      ∃ before bid after, bids = before ++ (number, bid) :: after ∧
        Proposal.same bid best = true ∧ ∀ other ∈ before, Proposal.same other.2 best = false := by
  cases h with
  | winner hsplit hsame hfirst => exact ⟨rfl, _, _, _, hsplit, hsame, hfirst⟩

end Choice

section Accounts

variable [Proposal P] {description : P} {numbers : List Nat} {answers : List (Option P)}
  {choosing : List (Call P)}

theorem hooked_noWork : Hooked [.describe (none : Option P)] .noWork where
  described := ⟨none, rfl, iff_of_true rfl rfl⟩
  unchosen _ := rfl
  chosen h := absurd rfl h
  resigned h := nomatch h
  unresigned _ := rfl
  noSolution_iff := iff_of_false (fun h => nomatch h) fun ⟨⟨_, h⟩, _⟩ => by cases h
  awarded _ _ _ h := nomatch h
  unawarded _ := ⟨rfl, rfl, rfl⟩

omit [Proposal P] in
theorem filter_workCalls {p : Call P → Bool}
    (hp : ∀ number description answer, p (.call number description answer) = false)
    (rest : List (Call P)) :
    (workCalls description numbers answers rest).filter p =
      [.describe (some description)].filter p ++ rest.filter p := by
  rw [workCalls, List.cons_append, List.filter_cons, List.filter_append,
    filter_asking description numbers answers hp, List.nil_append, List.filter_cons]
  split <;> rfl

omit [Proposal P] in
theorem bidsMade_workCalls (rest : List (Call P)) :
    bidsMade (workCalls description numbers answers rest) =
      bidsOf numbers answers ++ bidsMade rest := by
  rw [workCalls, List.cons_append, ← List.singleton_append, bidsMade_append, bidsMade_append,
    bidsMade_asking]
  rfl

/-- A round that ends without an award. -/
theorem hooked_resigned (h : Choice description (bidsOf numbers answers) choosing none) :
    Hooked (workCalls description numbers answers (choosing ++ [.noSolution])) .noSolution := by
  have hmade : bidsMade (workCalls description numbers answers (choosing ++ [.noSolution])) =
      bidsOf numbers answers := by
    rw [bidsMade_workCalls, bidsMade_append, h.bidsMade_eq]
    exact List.append_nil _
  have hfilter : ∀ {p : Call P → Bool}, (∀ number description answer,
      p (.call number description answer) = false) →
      (∀ bids description choice, p (.choose bids description choice) = false) →
      (workCalls description numbers answers (choosing ++ [.noSolution])).filter p =
        [.describe (some description), .noSolution].filter p := by
    intro p hcall hchoose
    rw [filter_workCalls hcall, List.filter_append, h.filter_of_not hchoose, List.nil_append,
      ← List.filter_append]
    rfl
  have hdescribes := @hfilter Call.describes (fun _ _ _ => rfl) fun _ _ _ => rfl
  have hchooses : (workCalls description numbers answers (choosing ++ [.noSolution])).filter
      Call.chooses = choosing := by
    rw [filter_workCalls (fun _ _ _ => rfl), List.filter_append, h.filter_chooses]
    exact List.append_nil _
  exact {
    described := ⟨some description, hdescribes, by simp⟩
    unchosen := fun hbids => hchooses.trans (h.eq_nil (hmade ▸ hbids))
    chosen := by
      rw [hmade, hchooses]
      intro hbids
      obtain ⟨choice, hchoice⟩ := h.exists_eq hbids
      exact ⟨description, choice, hdescribes, hchoice⟩
    resigned := fun _ => hfilter (fun _ _ _ => rfl) fun _ _ _ => rfl
    unresigned := fun hne => absurd rfl hne
    noSolution_iff := by
      rw [hmade, hchooses]
      refine iff_of_true rfl ⟨⟨description, hdescribes⟩, h.of_none.imp_right ?_⟩
      rintro ⟨choice, hchoice, hbest⟩
      exact ⟨_, description, choice, hchoice, hbest⟩
    awarded := fun _ _ _ hresult => nomatch hresult
    unawarded := fun _ => ⟨hfilter (fun _ _ _ => rfl) fun _ _ _ => rfl,
      hfilter (fun _ _ _ => rfl) fun _ _ _ => rfl, hfilter (fun _ _ _ => rfl) fun _ _ _ => rfl⟩ }

/-- A round that ends with an award. -/
theorem hooked_awarded {a : Award P} {best : P} (losers : List (Nat × P))
    (h : Choice description (bidsOf numbers answers) choosing (some (a.winner, best))) :
    Hooked (workCalls description numbers answers (choosing ++ performing best a losers))
      (.awarded a.winner a.agreed a.done.isSome) := by
  obtain ⟨rfl, before, bid, after, hsplit, hsame, hfirst⟩ := h.of_some
  generalize hcalls : workCalls description numbers answers _ = calls
  have hmade : bidsMade calls = before ++ (a.winner, bid) :: after := by
    rw [← hcalls, bidsMade_workCalls, bidsMade_append, bidsMade_performing, ← hsplit]
    exact List.append_nil _
  have hfilter : ∀ {p : Call P → Bool}, (∀ number description answer,
      p (.call number description answer) = false) → (∀ number bid, p (.reject number bid) = false) →
      calls.filter p = [.describe (some description),
        .choose ((bidsOf numbers answers).map Prod.snd) description (some best),
        .rescope best a.agreed, .accept a.winner a.agreed a.done].filter p ++
          (reporting a.done).filter p := by
    intro p hcall hreject
    rw [← hcalls, filter_workCalls hcall, List.filter_append, filter_performing hreject,
      ← List.append_assoc, ← List.append_assoc, ← List.filter_append, ← List.filter_append]
    rfl
  have hquiet : ∀ {p : Call P → Bool}, (∀ number description answer,
      p (.call number description answer) = false) → (∀ number bid, p (.reject number bid) = false) →
      (∀ work, p (.workDone work) = false) →
      calls.filter p = [.describe (some description),
        .choose ((bidsOf numbers answers).map Prod.snd) description (some best),
        .rescope best a.agreed, .accept a.winner a.agreed a.done].filter p := by
    intro p hcall hreject hdone
    rw [hfilter hcall hreject, filter_reporting hdone, List.append_nil]
  have hdescribes := @hquiet Call.describes (fun _ _ _ => rfl) (fun _ _ => rfl) fun _ => rfl
  have hchooses := @hquiet Call.chooses (fun _ _ _ => rfl) (fun _ _ => rfl) fun _ => rfl
  have hreports : calls.filter Call.reports = reporting a.done := by
    rw [hfilter (fun _ _ _ => rfl) fun _ _ => rfl, filter_reports_reporting]
    rfl
  have hsome : bidsMade calls ≠ [] := by simp [hmade]
  exact {
    described := ⟨some description, hdescribes, by simp⟩
    unchosen := fun hbids => absurd hbids hsome
    chosen := fun _ => ⟨description, some best, hdescribes, hmade ▸ hsplit ▸ hchooses⟩
    resigned := fun hresult => nomatch hresult
    unresigned := fun _ => hquiet (fun _ _ _ => rfl) (fun _ _ => rfl) fun _ => rfl
    noSolution_iff := by
      refine iff_of_false (fun hresult => nomatch hresult) ?_
      rintro ⟨_, hnone | ⟨bids, description', choice, hchoice, hbest⟩⟩
      · exact hsome hnone
      · -- the one choice that was made is a bid
        cases hchooses.symm.trans hchoice
        have hother := hbest best rfl (a.winner, bid) (by simp [hmade])
        exact Bool.false_ne_true (hother.symm.trans hsame)
    awarded := by
      intro winner agreed completed hresult
      cases hresult
      refine ⟨before, bid, after, _, _, best, a.done, hmade, hchooses, hsame, hfirst, ?_, ?_,
        hreports, rfl⟩
      · exact hquiet (fun _ _ _ => rfl) (fun _ _ => rfl) fun _ => rfl
      · exact hquiet (fun _ _ _ => rfl) (fun _ _ => rfl) fun _ => rfl
    unawarded := fun hnone => absurd rfl (hnone _ _ _) }

/-- In an account the hooks and the result belong together. -/
theorem Account.hooked {n : Nat} {calls : List (Call P)} {result : Result P}
    (h : Account n calls result) : Hooked calls result := by
  cases h with
  | noWork => exact hooked_noWork
  | work _ hending =>
    cases hending with
    | resigned hchoice => exact hooked_resigned hchoice
    | awarded hchoice => exact hooked_awarded _ hchoice

end Accounts

section Round

variable [Proposal P] (initiator : Initiator W P)

/-- A round ends, unless a party faults in it, and among parties whose answers are noted it ends in
the same way. The notes are an account of the round, and in them the hooks and the result belong
together. -/
theorem solicit_account (net : Net W P) (w : W) :
    (∃ fault net' w', Net.solicit initiator net w = (.error fault, net', w') ∧
      PartyFault initiator net.responders fault) ∨
    ∃ result net' noted' w' calls, Net.solicit initiator net w = (.ok result, net', w') ∧
      Net.solicit initiator.noted net.noted (w, []) = (.ok result, noted', w', calls) ∧
      Account net.responders.length calls result ∧ Hooked calls result := by
  have hdescribed : ∀ {work w'}, initiator.describe w = (.ok work, w') →
      initiator.noted.describe (w, []) = (.ok work, w', [.describe work]) :=
    fun hdescribe => watching_of_ok hdescribe []
  have hends := Net.ends_solicit initiator net w
  generalize Net.solicit initiator net w = ending at hends ⊢
  cases hends with
  | unasked hdescribe => exact .inl ⟨_, _, _, rfl, .describe hdescribe⟩
  | noWork hdescribe =>
    have hnoted := net.noted.solicit_of_noWork (hdescribed hdescribe)
    exact .inr ⟨_, _, _, _, _, rfl, hnoted, .noWork, hooked_noWork⟩
  | brokenOff _ hcourse => exact .inl ⟨_, _, _, rfl, fault_of_course hcourse⟩
  | @concluded _ c _ _ hdescribe hcourse =>
    obtain ⟨rfl, hsize, _⟩ := course_eq_ok hcourse
    obtain ⟨rest, hrest, hending⟩ := course_noted hcourse [.describe (some c.description)]
    have hnoted := net.noted.solicit_of_course (hdescribed hdescribe) hrest
    have haccount : Account net.responders.length
        (workCalls c.description (List.range c.size) c.answers rest) c.result :=
      hsize ▸ .work rfl hending
    exact .inr ⟨_, _, _, _, _, rfl, hnoted, haccount, haccount.hooked⟩

end Round

end DemandResponse.Negotiation
