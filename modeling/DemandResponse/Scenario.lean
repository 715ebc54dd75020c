import DemandResponse.Book
import DemandResponse.Digits
import DemandResponse.Random.Sampling

/-!
# Random scenarios

A scenario is a random book. Its sites are numbered from zero; each has a random number of
offers up to a bound, of random direction, magnitude and reaction time. Offer ids count from one
through all sites. A seed determines the whole book. Without one the generator begins with a state
from outside.
-/

namespace DemandResponse

open DemandResponse.Random (Draw Generator Key Stream standard)

/-- The bounds of a random book, and its seed, if the book is to be the same each time. -/
structure Scenario where
  siteCount : Nat := 8
  maxOffers : Nat := 3
  minMagnitude : Power := 1
  maxMagnitude : Power := 100
  maxReaction : UInt32 := 8
  seed : Option UInt64 := none

namespace Scenario

def duration : UInt32 := 4

def cease : UInt32 := 2

/-- The site of a number, which is written with at least three digits. -/
def siteName (number : Nat) : SiteId :=
  ⟨String.ofList ("SITE-".toList ++ Digits.padded 3 number)⟩

section Drawing

variable {ρ : Type} (g : Generator ρ)

def drawOffer (s : Scenario) (id : Nat) : Draw ρ Offer := do
  let up ← g.flip
  let magnitude ← g.pick .long s.minMagnitude.toInt s.maxMagnitude.toInt
  let reaction ← g.pick .short 0 s.maxReaction.toNat
  Offer.new (.ofNat id) (.ofInt magnitude) (if up then .up else .down) duration
    (.ofNat reaction.toNat) cease

/-- Random offers of consecutive ids. -/
def drawOffers (s : Scenario) (id : Nat) : (count : Nat) → Draw ρ (List Offer)
  | 0 => return []
  | count + 1 => do
    let offer ← s.drawOffer g id
    let rest ← s.drawOffers (id + 1) count
    return offer :: rest

/-- Random offers for the sites from a number on, with ids from `id` on. -/
def drawSites (s : Scenario) (number id : Nat) :
    (count : Nat) → Draw ρ (List (SiteId × List Offer))
  | 0 => return []
  | count + 1 => do
    let size ← g.pick .long 0 s.maxOffers
    let offers ← s.drawOffers g id size.toNat
    let rest ← s.drawSites (number + 1) (id + offers.length) count
    return (siteName number, offers) :: rest

/-- The state that draws begin with: that of the seed, and without one a state from outside. -/
def start (s : Scenario) (entropy : ρ) : ρ :=
  match s.seed with
  | some seed => g.ofSeed seed
  | none => entropy

/-- The book that a generator makes. -/
def generate (s : Scenario) (entropy : ρ) : Except Fault Book := do
  let (entries, _) ← (s.drawSites g 0 1 s.siteCount).run (s.start g entropy)
  match Book.extendAll entries .empty with
  | (.ok (), book) => return book
  | (.error fault, _) => throw fault

end Drawing

/-- The book of the standard generator, which takes the key of its stream from outside if there is
no seed. -/
def book (s : Scenario) (entropy : Key := default) : Except Fault Book :=
  s.generate standard (.ofKey entropy)

end Scenario

end DemandResponse
