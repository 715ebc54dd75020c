import DemandResponse.Power

/-!
# Capability bands

What a participant can deliver at most in each direction at the present tick. Both limits of a
band built by `Band.new` are non-negative.
-/

namespace DemandResponse

/-- The greatest downward and upward power of a participant. -/
structure Band where
  down : Power
  up : Power
  deriving DecidableEq, Repr

namespace Band

/-- A band of two non-negative limits. -/
def new (down up : Power) : Except Fault Band :=
  if 0 ≤ down ∧ 0 ≤ up then .ok ⟨down, up⟩ else .error (.negativeBand down up)

def zero : Band := ⟨0, 0⟩

def isZero (b : Band) : Bool := b.down == 0 && b.up == 0

/-- A band is written as the interval of the changes it allows. -/
def text (b : Band) : String := s!"[-{b.down}, +{b.up}]"

end Band

end DemandResponse
