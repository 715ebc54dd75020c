/-!
# Faults

A rule that an argument or an intermediate value breaks ends the operation at hand. The cause is
a value of `Fault`, and its wording stands in `Fault.message` alone. An operation that changes a
state answers an `Attempt`: the state it had reached is kept when it faults.
-/

namespace DemandResponse

/-- Why an operation ended early. -/
inductive Fault where
  | negativeMagnitude (magnitude : Int64)
  | negativeBand (down up : Int64)
  | repeatedOffer (id : Int64)
  | invertedWindow (first last : UInt64)
  | sumOverflow
  | productOverflow
  | negationOverflow
  | decimalSumOverflow
  | decimalDifferenceOverflow
  | decimalProductOverflow
  | emptyRange
  deriving DecidableEq, Repr

/-- What an operation answers, together with the state it leaves. -/
abbrev Attempt (σ α : Type) := Except Fault α × σ

/-- A value that may be missing, for want of which an operation faults. -/
def Fault.ifNone {α : Type} (fault : Fault) : Option α → Except Fault α
  | some a => .ok a
  | none => .error fault

def Fault.message : Fault → String
  | .negativeMagnitude magnitude =>
    s!"Flex offer magnitude must be non-negative, got {magnitude}"
  | .negativeBand down up =>
    s!"Capability band limits must be non-negative, got down={down} up={up}"
  | .repeatedOffer id => s!"Flex offer {id} is already registered in this book"
  | .invertedWindow first last => s!"Proposal window [{first}, {last}] is inverted"
  | .sumOverflow => "attempt to add with overflow"
  | .productOverflow => "attempt to multiply with overflow"
  | .negationOverflow => "attempt to negate with overflow"
  | .decimalSumOverflow => "Addition overflowed"
  | .decimalDifferenceOverflow => "Subtraction overflowed"
  | .decimalProductOverflow => "Multiplication overflowed"
  | .emptyRange => "cannot sample empty range"

end DemandResponse
