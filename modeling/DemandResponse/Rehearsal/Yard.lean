import DemandResponse.Matching.Outcome

/-!
# Recording sites

A yard is a world of stand-ins for sites. Each has a list of offers that is set from outside;
what is activated at any of them is kept in one journal. A site of the yard is found by its
number, or by name, where the latest of a name counts.
-/

namespace DemandResponse.Rehearsal

/-- The offer lists of the sites, by number, and the activations so far, oldest first. -/
structure Yard where
  sites : List (SiteId × List Offer)
  journal : List (SiteId × Int64)

namespace Yard

def empty : Yard := ⟨[], []⟩

def site (number : Nat) (name : SiteId) : Site Yard where
  offers yard := (yard.sites[number]?.map Prod.snd).getD []
  activate command yard := { yard with journal := yard.journal ++ [(name, command.reference)] }

/-- Set up a site, and the yard that has it under the next number. -/
def build (yard : Yard) (name : SiteId) (offers : List Offer) : Site Yard × Yard :=
  (site yard.sites.length name, { yard with sites := yard.sites ++ [(name, offers)] })

/-- The number of the latest site of a name. -/
def number? (yard : Yard) (name : SiteId) : Option Nat :=
  (yard.sites.zipIdx.reverse.find? fun s => s.1.1 = name).map Prod.snd

def setOffers (yard : Yard) (number : Nat) (offers : List Offer) : Yard :=
  { yard with sites := yard.sites.modify number fun s => (s.1, offers) }

/-- Sites without offers that stand at the positions of some names. -/
def standIns (names : List SiteId) : List (SiteId × Site (List (Nat × SiteId × Int64))) :=
  names.zipIdx.map fun (name, position) =>
    (name, ⟨fun _ => [], fun command log => log ++ [(position, name, command.reference)]⟩)

end Yard

end DemandResponse.Rehearsal
