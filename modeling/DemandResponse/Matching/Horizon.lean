import DemandResponse.Matching.Candidates

/-!
# The moving horizon

A single pass over the sites. Each site is represented by the offer whose reaction time is
nearest to the present tick, the first listed among equals. It is accepted if it brings the rest
of the target strictly closer to zero; the rest shrinks by what was accepted.
-/

namespace DemandResponse.Matching.Horizon

/-- How far the reaction time of an offer is from the present tick. -/
def lead (tick : Tick) (o : Offer) : Nat := ((tick.toNat : Int) - o.reaction.toNat).natAbs

/-- Whether the reaction time comes before the tick or after it makes no difference. -/
theorem lead_le_iff {tick : Tick} {o : Offer} {d : Nat} :
    lead tick o ≤ d ↔ tick.toNat ≤ o.reaction.toNat + d ∧ o.reaction.toNat ≤ tick.toNat + d := by
  rw [lead]
  omega

def nearest (tick : Tick) : List Offer → Option Offer
  | [] => none
  | o :: rest =>
    some (rest.foldl (fun best x => if lead tick x < lead tick best then x else best) o)

/-- Decide on one representative after the other. -/
def accept (rest : Power) : List (Option Offer) → Selection
  | [] => []
  | none :: others => none :: accept rest others
  | some o :: others =>
    let after := Power.subClamped rest (effect o)
    if Power.distance after 0 < Power.distance rest 0 then some o :: accept after others
    else none :: accept rest others

/-- Choose greedily. A representative whose contribution is out of range ends the pass. -/
def select (tick : Tick) (target : Power) (sites : List Candidates) : Except Fault Selection :=
  let representatives := sites.map fun c => nearest tick c.offers
  if (active representatives).all fun o => o.contribution.isOk then
    .ok (accept target representatives)
  else .error .productOverflow

end DemandResponse.Matching.Horizon
