import DemandResponse.Site

/-!
# Outcomes of matching

An outcome lists the activations of one matching step. Its sum is added from the first
activation to the last and faults outside the range of power values; an outcome taken over from
a record may do so. Dispatching delivers each command to the first live site of its name and
passes over names that no live site has.
-/

namespace DemandResponse.Matching

/-- A selected offer, where it belongs, and the command that activates it. -/
structure Activation where
  site : SiteId
  offer : Offer
  command : Command
  deriving DecidableEq, Repr

structure Outcome where
  tick : Tick
  target : Power
  activations : List Activation
  deriving DecidableEq, Repr

namespace Outcome

def addContributions (sum : Power) : List Offer → Except Fault Power
  | [] => .ok sum
  | o :: rest =>
    match o.contribution with
    | .error fault => .error fault
    | .ok p =>
      match Power.add sum p with
      | .error fault => .error fault
      | .ok sum' => addContributions sum' rest

def achieved (outcome : Outcome) : Except Fault Power :=
  addContributions 0 (outcome.activations.map (·.offer))

def deviation (outcome : Outcome) : Except Fault Nat :=
  outcome.achieved.map (Power.distance outcome.target)

def isExact (outcome : Outcome) : Except Fault Bool := outcome.deviation.map (· == 0)

def commands (outcome : Outcome) : List Command := outcome.activations.map (·.command)

end Outcome

def deliver {σ : Type} (sites : List (SiteId × Site σ)) (world : σ) (a : Activation) : σ :=
  match sites.find? fun s => s.1 = a.site with
  | some (_, site) => site.activate a.command world
  | none => world

def dispatch {σ : Type} (outcome : Outcome) (sites : List (SiteId × Site σ)) (world : σ) : σ :=
  outcome.activations.foldl (deliver sites) world

end DemandResponse.Matching
