import DemandResponse.Aggregator
import DemandResponse.Decimal.Binary
import DemandResponse.Json.Record
import DemandResponse.Negotiation.Round
import DemandResponse.Negotiation.Scoring
import DemandResponse.Rehearsal.Enrolment
import DemandResponse.Rehearsal.Recorder
import DemandResponse.Rehearsal.Stage
import DemandResponse.Rehearsal.Yard
import DemandResponse.Scenario
import DemandResponse.Wire.Records
import DemandResponse.Proofs.Matching.BestFit
import DemandResponse.Proofs.Negotiation.Transcript
import DemandResponse.Proofs.Aggregator.History
import DemandResponse.Proofs.Book.Filling
import DemandResponse.Proofs.Distributor.Signal
import DemandResponse.Proofs.Matching.Activations
import DemandResponse.Proofs.Matching.Evaluation
import DemandResponse.Proofs.Distributor.Limits
import DemandResponse.Proofs.Negotiation.Calls
import DemandResponse.Proofs.Negotiation.Hooks
import DemandResponse.Proofs.Negotiation.Afresh
import DemandResponse.Proofs.Negotiation.Phases
import DemandResponse.Proofs.Matching.Dominance
import DemandResponse.Proofs.Book.Record
import DemandResponse.Proofs.Distributor.Balance
import DemandResponse.Proofs.Matching.Promise
import DemandResponse.Proofs.Aggregator.Runs
import DemandResponse.Proofs.Distributor.Breakdown
import DemandResponse.Proofs.Distributor.History
import DemandResponse.Proofs.Distributor.Response
import DemandResponse.Proofs.Negotiation.Interruption
import DemandResponse.Proofs.Matching.Reordering
import DemandResponse.Proofs.Matching.Approach
import DemandResponse.Proofs.Matching.Relisting
import DemandResponse.Proofs.Matching.Growth
import DemandResponse.Proofs.Matching.Mirror
import DemandResponse.Proofs.Matching.Deliverable
import DemandResponse.Proofs.Negotiation.Selection
import DemandResponse.Proofs.Negotiation.Closeness
import DemandResponse.Proofs.Random.Draw
import DemandResponse.Proofs.Scenario
import DemandResponse.Proofs.Wire.Rules
import DemandResponse.Proofs.Wire.Records
import DemandResponse.Proofs.Apportionment.Order
import DemandResponse.Proofs.Matching.Tour
