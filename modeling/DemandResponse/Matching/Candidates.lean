import DemandResponse.Name
import DemandResponse.Offer

/-!
# Candidates

The offers among which a strategy may choose, at most one per site. Matching proper looks only
at usable offers; a strategy by itself takes any. What a choice adds up to is defined here once
for all strategies: contributions are added from the first site to the last, and a running sum
stops at the ends of the range of power values.
-/

namespace DemandResponse.Matching

structure Candidates where
  site : SiteId
  offers : List Offer
  deriving DecidableEq, Repr

/-- One decision per site: an offer, or idle. -/
abbrev Selection := List (Option Offer)

/-- The offers that approach a target, in their order. -/
def usable (target : Power) (offers : List Offer) : List Offer :=
  match Direction.towards target with
  | some way => offers.filter fun o => o.direction = way ∧ 0 < o.magnitude
  | none => []

/-- The contribution of an offer, brought into the range of power values. -/
def effect (o : Offer) : Power := Power.clamp o.signedMagnitude

def active (selection : Selection) : List Offer := selection.filterMap id

/-- The running sum of the effects of some offers. -/
def total (offers : List Offer) : Power :=
  offers.foldl (fun sum o => Power.addClamped sum (effect o)) 0

end DemandResponse.Matching
