import DemandResponse.Matching.Candidates
import DemandResponse.Matching.Odometer

/-!
# The best fit

The best fit tries every combination of per-site decisions, in odometer order from the idle one.
Combinations are ranked by their deviation from the target, then by the number of active sites,
then by the ids of the active offers in site order. A later combination replaces the best so far
only if it ranks strictly before it, so the first of equals stays. Ids are compared only where
deviation and number do not decide already.
-/

namespace DemandResponse.Matching

/-- What a combination is judged by, in order of weight. -/
structure Ranking where
  deviation : Nat
  active : Nat
  ids : List Int64
  deriving DecidableEq, Repr

namespace Ranking

/-- The first of the three criteria that differs decides. -/
def Before (a b : Ranking) : Prop :=
  a.deviation < b.deviation ∨
    a.deviation = b.deviation ∧ (a.active < b.active ∨ a.active = b.active ∧ a.ids < b.ids)

instance (a b : Ranking) : Decidable (a.Before b) := by
  unfold Before
  infer_instance

end Ranking

namespace BestFit

/-- The decision that a wheel shows: zero is idle, and `k + 1` the offer at position `k`. -/
def pick (k : Nat) (c : Candidates) : Option Offer :=
  match k with
  | 0 => none
  | k + 1 => c.offers[k]?

def shown (sites : List Candidates) (cursor : List Nat) : Selection :=
  List.zipWith pick cursor sites

def rank (target : Power) (selection : Selection) : Ranking :=
  let offers := Matching.active selection
  { deviation := Power.distance target (total offers)
    active := offers.length
    ids := offers.map (·.id) }

structure Standing where
  ranking : Ranking
  cursor : List Nat

/-- The better of the best standing and the combination at a cursor. -/
def challenge (target : Power) (sites : List Candidates) (best : Standing) (cursor : List Nat) :
    Standing :=
  let offers := Matching.active (shown sites cursor)
  let deviation := Power.distance target (total offers)
  let number := offers.length
  if best.ranking.deviation < deviation ∨
      best.ranking.deviation = deviation ∧ best.ranking.active < number then best
  else
    let ranking : Ranking := ⟨deviation, number, offers.map (·.id)⟩
    if ranking.Before best.ranking then ⟨ranking, cursor⟩ else best

def search (target : Power) (sites : List Candidates) (sizes cursor : List Nat)
    (best : Standing) : Standing :=
  match h : Odometer.advance sizes cursor with
  | (false, _) => best
  | (true, next) =>
    have : Odometer.remaining sizes next < Odometer.remaining sizes cursor := by
      rw [Odometer.remaining_advance h]
      exact Nat.lt_succ_self _
    search target sites sizes next (challenge target sites best next)
termination_by Odometer.remaining sizes cursor

def sizes (sites : List Candidates) : List Nat := sites.map fun c => c.offers.length

def best (target : Power) (sites : List Candidates) : Standing :=
  let start := Odometer.start (sizes sites)
  search target sites (sizes sites) start ⟨⟨Power.distance target 0, 0, []⟩, start⟩

/-- Choose the best combination. Every offer takes part in some combination, so one whose
contribution is out of range ends the search. -/
def select (target : Power) (sites : List Candidates) : Except Fault Selection :=
  if sites.all fun c => c.offers.all fun o => o.contribution.isOk then
    .ok (shown sites (best target sites).cursor)
  else .error .productOverflow

end BestFit

end DemandResponse.Matching
