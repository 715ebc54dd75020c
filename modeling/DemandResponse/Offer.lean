import DemandResponse.Power

/-!
# Flexibility offers

A site promises to move its load up or down by a magnitude. An offer built by `Offer.new` has a
non-negative magnitude; offers taken over from a record may have any. The contribution of an
offer is its magnitude under the sign of its direction, and is undefined only for a downward
magnitude of -2^63.
-/

namespace DemandResponse

inductive Direction where
  | up
  | down
  deriving DecidableEq, Repr

namespace Direction

/-- The direction that approaches a target from rest; a zero target has none. -/
def towards (target : Power) : Option Direction :=
  if 0 < target then some .up else if target < 0 then some .down else none

def sign : Direction → Int
  | .up => 1
  | .down => -1

def name : Direction → String
  | .up => "UP"
  | .down => "DOWN"

def ofName? (name : String) : Option Direction :=
  if name = "UP" then some .up else if name = "DOWN" then some .down else none

theorem ofName?_name (d : Direction) : ofName? d.name = some d := by
  cases d <;> rfl

end Direction

/-- A promise to move the load by a magnitude, with its timing in ticks. -/
structure Offer where
  id : Int64
  magnitude : Power
  direction : Direction
  duration : UInt32
  /-- How long after its activation the change begins. -/
  reaction : UInt32
  cease : UInt32
  deriving DecidableEq, Repr

/-- The order to make good on the offer of this id. -/
structure Command where
  reference : Int64
  deriving DecidableEq, Repr

namespace Offer

def new (id : Int64) (magnitude : Power) (direction : Direction)
    (duration reaction cease : UInt32) : Except Fault Offer :=
  if 0 ≤ magnitude then .ok ⟨id, magnitude, direction, duration, reaction, cease⟩
  else .error (.negativeMagnitude magnitude)

def withTiming (o : Offer) (duration reaction cease : UInt32) : Offer :=
  { o with duration, reaction, cease }

/-- The change of load as an exact integer. -/
def signedMagnitude (o : Offer) : Int := o.direction.sign * o.magnitude.toInt

/-- The change of load as a power value. -/
def contribution (o : Offer) : Except Fault Power :=
  Fault.productOverflow.ifNone (Power.ofInt? o.signedMagnitude)

/-- The command that activates an offer refers to it by id. -/
def command (o : Offer) : Command := ⟨o.id⟩

def text (o : Offer) : String :=
  let way := o.direction.name
  s!"#{o.id} {way} {o.magnitude}kW (t={o.duration}, tR={o.reaction}, tC={o.cease})"

theorem contribution_eq_ok_iff {o : Offer} {p : Power} :
    o.contribution = .ok p ↔ p.toInt = o.signedMagnitude := by
  rw [← Power.ofInt?_eq_some_iff]
  unfold contribution
  cases Power.ofInt? o.signedMagnitude <;> simp [Fault.ifNone]

end Offer

end DemandResponse
