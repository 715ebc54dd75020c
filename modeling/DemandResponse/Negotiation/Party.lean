import DemandResponse.Negotiation.Proposal

/-!
# Parties of a negotiation

One initiator puts work out to tender and several responders bid for it. Whatever the parties
remember from call to call is in one world `W`, which every call may change; a call may also
fault, and keeps what it had changed by then.
-/

namespace DemandResponse.Negotiation

structure Responder (W P : Type) where
  /-- Bid for a description, or refuse. -/
  call : P → W → Attempt W (Option P)
  /-- Perform an award: the work as it was done, or failure. -/
  accept : P → W → Attempt W (Option P)
  reject : P → W → Attempt W Unit := fun _ w => (.ok (), w)

structure Initiator (W P : Type) where
  describe : W → Attempt W (Option P)
  choose : List P → P → W → Attempt W (Option P)
  /-- Adjust the chosen bid before it is awarded. -/
  rescope : P → W → Attempt W P := fun best w => (.ok best, w)
  workDone : P → W → Attempt W Unit
  noSolution : W → Attempt W Unit

def Responder.silent {W P : Type} : Responder W P where
  call _ w := (.ok none, w)
  accept _ w := (.ok none, w)

end DemandResponse.Negotiation
