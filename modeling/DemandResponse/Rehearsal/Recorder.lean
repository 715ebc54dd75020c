import DemandResponse.Distributor

/-!
# Recording participants

A stand-in for a participant: it reports a band that is set from outside, and keeps what it
received and how often it was asked.
-/

namespace DemandResponse.Rehearsal

/-- A participant that keeps what reaches it. -/
structure Recorder where
  band : Band
  received : List (Tick × Power)
  polls : Nat

namespace Recorder

def new (band : Band) : Recorder := ⟨band, [], 0⟩

instance : Participant Recorder Unit where
  capacity r _ := (.ok r.band, { r with polls := r.polls + 1 })
  receive r tick value := { r with received := r.received ++ [(tick, value)] }

end Recorder

end DemandResponse.Rehearsal
