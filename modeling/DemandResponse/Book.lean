import DemandResponse.Name
import DemandResponse.Offer

/-!
# The book of offers

A book lists, per site, the offers put forward for one tick. Sites keep the order of their first
mention and offers the order of their acceptance. An id may occur once in the whole book; the
book keeps the ids it has accepted in an index of their own. `Book.extend` mentions its site
first and then adds one offer after the other, so a repeated id leaves the offers before it.
-/

namespace DemandResponse

/-- The offers of each site, and the index of their ids. -/
structure Book where
  entries : List (SiteId × List Offer)
  ids : List Int64
  deriving DecidableEq, Repr

namespace Book

def empty : Book := ⟨[], []⟩

/-- Append offers to the entry of a site, which is opened at the end if there is none. -/
def place (site : SiteId) (offers : List Offer) :
    List (SiteId × List Offer) → List (SiteId × List Offer)
  | [] => [(site, offers)]
  | (s, listed) :: rest =>
    if s = site then (s, listed ++ offers) :: rest else (s, listed) :: place site offers rest

/-- Record a site, with no offer yet if it is new. -/
def mention (b : Book) (site : SiteId) : Book := { b with entries := place site [] b.entries }

/-- Accept an offer of a fresh id. -/
def add (b : Book) (site : SiteId) (offer : Offer) : Except Fault Book :=
  if offer.id ∈ b.ids then .error (.repeatedOffer offer.id)
  else .ok ⟨place site [offer] b.entries, offer.id :: b.ids⟩

def addAll (site : SiteId) : List Offer → Book → Attempt Book Unit
  | [], b => (.ok (), b)
  | offer :: rest, b =>
    match b.add site offer with
    | .ok b' => addAll site rest b'
    | .error fault => (.error fault, b)

def extend (b : Book) (site : SiteId) (offers : List Offer) : Attempt Book Unit :=
  addAll site offers (b.mention site)

def extendAll : List (SiteId × List Offer) → Book → Attempt Book Unit
  | [], b => (.ok (), b)
  | (site, offers) :: rest, b =>
    match b.extend site offers with
    | (.ok (), b') => extendAll rest b'
    | (.error fault, b') => (.error fault, b')

/-- The offers of a site; an unknown site has none. -/
def offersFor (b : Book) (site : SiteId) : List Offer :=
  ((b.entries.find? fun e => e.1 = site).map Prod.snd).getD []

def sites (b : Book) : List SiteId := b.entries.map Prod.fst

def siteCount (b : Book) : Nat := b.entries.length

def offers (b : Book) : List Offer := b.entries.flatMap Prod.snd

def offerCount (b : Book) : Nat := b.offers.length

/-- A book of sites without offers counts as empty. -/
def isEmpty (b : Book) : Bool := b.offerCount == 0

/-- The greatest magnitude that a site offers in a direction, and zero if it offers none. -/
def maxMagnitude (b : Book) (site : SiteId) (direction : Direction) : Power :=
  let magnitudes := ((b.offersFor site).filter fun o => o.direction = direction).map (·.magnitude)
  match magnitudes with
  | [] => 0
  | m :: rest => rest.foldl (fun best x => if best ≤ x then x else best) m

/-- The most that one offer per site can deliver together in a direction. -/
def deliverable (b : Book) (direction : Direction) : Power :=
  b.sites.foldl (fun sum site => Power.addClamped sum (b.maxMagnitude site direction)) 0

end Book

end DemandResponse
