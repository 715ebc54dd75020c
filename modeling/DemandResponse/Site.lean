import DemandResponse.Name
import DemandResponse.Offer

/-!
# Sites

A site publishes offers and executes activations. How it does so depends on a state of its own;
the states of all sites together are one world `σ`, which reading leaves alone and activating
may change.
-/

namespace DemandResponse

/-- What a site does in a world `σ`. -/
structure Site (σ : Type) where
  offers : σ → List Offer
  activate : Command → σ → σ

end DemandResponse
