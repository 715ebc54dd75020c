import DemandResponse.Aggregator
import DemandResponse.Rehearsal.Yard

/-!
# Enrolling sites

Sites of a yard are enrolled with an aggregator one after the other. A site enters the yard when
the aggregator takes it up, and stays there whatever becomes of the aggregator afterwards; one
whose name the aggregator already knows never enters. Offers that cannot be made up end the
enrolment, and the sites before them stay enrolled.
-/

namespace DemandResponse.Rehearsal

/-- Set up a site with its offers and enrol it, unless its name is taken. -/
def enrol (a : Aggregator Yard) (yard : Yard) (name : SiteId) (offers : List Offer) :
    Bool × Aggregator Yard × Yard :=
  let (site, built) := yard.build name offers
  match a.register name site with
  | (true, a) => (true, a, built)
  | (false, a) => (false, a, yard)

/-- Enrol sites in order, up to the first whose offers cannot be made up. -/
def enrolEach (a : Aggregator Yard) (yard : Yard) :
    List (SiteId × Except Fault (List Offer)) → Attempt (Aggregator Yard × Yard) Unit
  | [] => (.ok (), a, yard)
  | (_, .error fault) :: _ => (.error fault, a, yard)
  | (name, .ok offers) :: rest =>
    let (_, a, yard) := enrol a yard name offers
    enrolEach a yard rest

end DemandResponse.Rehearsal
