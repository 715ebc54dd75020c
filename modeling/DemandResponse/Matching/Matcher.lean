import DemandResponse.Book
import DemandResponse.Matching.BestFit
import DemandResponse.Matching.Horizon
import DemandResponse.Matching.Outcome

/-!
# Matching a target

A matcher knows its sites in the order of their registration and the strategy that chooses
among their usable offers. Offers of other sites are passed over, and a zero target activates
nothing.
-/

namespace DemandResponse.Matching

inductive Strategy where
  | exhaustive
  | movingHorizon
  deriving DecidableEq, Repr

namespace Strategy

def name : Strategy → String
  | .exhaustive => "exhaustive"
  | .movingHorizon => "moving_horizon"

def ofName? (name : String) : Option Strategy :=
  if name = "exhaustive" then some .exhaustive
  else if name = "moving_horizon" then some .movingHorizon
  else none

theorem ofName?_name (s : Strategy) : ofName? s.name = some s := by
  cases s <;> rfl

def select (strategy : Strategy) (tick : Tick) (target : Power) (sites : List Candidates) :
    Except Fault Selection :=
  match strategy with
  | .exhaustive => BestFit.select target sites
  | .movingHorizon => Horizon.select tick target sites

end Strategy

/-- The sites to choose from, and the way to choose. -/
structure Matcher where
  strategy : Strategy
  sites : List SiteId
  deriving DecidableEq, Repr

namespace Matcher

def new (strategy : Strategy) : Matcher := ⟨strategy, []⟩

/-- Whether a site is new, and the matcher that knows it. -/
def register (m : Matcher) (site : SiteId) : Bool × Matcher :=
  if site ∈ m.sites then (false, m) else (true, { m with sites := m.sites ++ [site] })

def candidates (m : Matcher) (target : Power) (book : Book) : List Candidates :=
  m.sites.map fun site => ⟨site, usable target (book.offersFor site)⟩

def activation (c : Candidates) (decision : Option Offer) : Option Activation :=
  decision.map fun o => ⟨c.site, o, o.command⟩

/-- Choose, among the offers of a book, what approaches a target. -/
def meet (m : Matcher) (tick : Tick) (target : Power) (book : Book) : Except Fault Outcome :=
  match Direction.towards target with
  | none => .ok ⟨tick, target, []⟩
  | some _ =>
    let sites := m.candidates target book
    match m.strategy.select tick target sites with
    | .error fault => .error fault
    | .ok selection =>
      .ok ⟨tick, target, (List.zipWith activation sites selection).filterMap id⟩

end Matcher

end DemandResponse.Matching
