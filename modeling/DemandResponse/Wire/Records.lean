import DemandResponse.Distributor
import DemandResponse.Negotiation.Proposal
import DemandResponse.Settings
import DemandResponse.Wire.Basic

/-!
# Written forms of the domain

Records are written as objects with their fields in a fixed order, choices by their names and ids
as plain strings. A record that is read has any values that its fields can hold: an offer may
have a negative magnitude, a band negative limits, and a proposal marks in the wrong order.
-/

namespace DemandResponse.Wire

open Matching (Activation Outcome Strategy)
open Negotiation (WorkProposal)

instance : Wire Direction where
  encode d := .text d.name
  decode? j := j.choice?.bind Direction.ofName?

instance : Wire Strategy where
  encode s := .text s.name
  decode? j := j.choice?.bind Strategy.ofName?

instance : Wire SiteId where
  encode id := .text id.text
  decode? j := j.text?.map SiteId.mk

instance : Wire ParticipantId where
  encode id := .text id.text
  decode? j := j.text?.map ParticipantId.mk

def offerFields : List String :=
  ["id", "magnitude", "direction", "duration", "reaction_time", "cease_time"]

instance : Wire Offer where
  encode o := .object (offerFields.zip
    [encode o.id, encode o.magnitude, encode o.direction, encode o.duration, encode o.reaction,
      encode o.cease])
  decode? j := do
    match ← j.fields? offerFields 6 with
    | [id, magnitude, direction, duration, reaction, cease] =>
      return ⟨← required id, ← required magnitude, ← required direction, ← required duration,
        ← required reaction, ← required cease⟩
    | _ => none

def commandFields : List String := ["reference_id"]

instance : Wire Command where
  encode c := .object (commandFields.zip [encode c.reference])
  decode? j := do
    match ← j.fields? commandFields 1 with
    | [reference] => return ⟨← required reference⟩
    | _ => none

def bandFields : List String := ["down", "up"]

instance : Wire Band where
  encode b := .object (bandFields.zip [encode b.down, encode b.up])
  decode? j := do
    match ← j.fields? bandFields 2 with
    | [down, up] => return ⟨← required down, ← required up⟩
    | _ => none

def settingsFields : List String := ["strategy", "aggregation_frequency"]

/-- Fields of settings that are missing take the standard values. -/
instance : Wire Settings where
  encode s := .object (settingsFields.zip [encode s.strategy, encode s.frequency])
  decode? j := do
    match ← j.fields? settingsFields 0 with
    | [strategy, frequency] =>
      return ⟨← withDefault Settings.standard.strategy strategy,
        ← withDefault Settings.standard.frequency frequency⟩
    | _ => none

def activationFields : List String := ["site", "offer", "command"]

instance : Wire Activation where
  encode a := .object (activationFields.zip [encode a.site, encode a.offer, encode a.command])
  decode? j := do
    match ← j.fields? activationFields 3 with
    | [site, offer, command] => return ⟨← required site, ← required offer, ← required command⟩
    | _ => none

def outcomeFields : List String := ["tick", "target", "activations"]

instance : Wire Outcome where
  encode o := .object (outcomeFields.zip [encode o.tick, encode o.target, encode o.activations])
  decode? j := do
    match ← j.fields? outcomeFields 3 with
    | [tick, target, activations] =>
      return ⟨← required tick, ← required target, ← required activations⟩
    | _ => none

def signalFields : List String := ["participant", "tick", "value"]

instance : Wire Signal where
  encode s := .object (signalFields.zip [encode s.participant, encode s.tick, encode s.value])
  decode? j := do
    match ← j.fields? signalFields 3 with
    | [participant, tick, value] =>
      return ⟨← required participant, ← required tick, ← required value⟩
    | _ => none

def proposalFields : List String :=
  ["description", "target_value", "valuation", "begin_mark", "end_mark"]

instance : Wire WorkProposal where
  encode p := .object (proposalFields.zip
    [encode p.description, encode p.target, encode p.valuation, encode p.beginMark,
      encode p.endMark])
  decode? j := do
    match ← j.fields? proposalFields 5 with
    | [description, target, valuation, beginMark, endMark] =>
      return ⟨← required description, ← required target, ← required valuation,
        ← optional beginMark, ← optional endMark⟩
    | _ => none

end DemandResponse.Wire

namespace DemandResponse.Settings

def ofText (text : String) : Except SettingsError Settings :=
  match Wire.read? text with
  | none => .error .unreadable
  | some (settings : Settings) => settings.validate

end DemandResponse.Settings
