import DemandResponse.Matching.Matcher

/-!
# Settings

The two things that can be set on the matching side: the strategy, and on which of its ticks an
aggregator matches. A frequency of zero is turned down by `validate`, and counts as one where it
is used without validation.
-/

namespace DemandResponse

structure Settings where
  strategy : Matching.Strategy
  /-- Match on every tick whose count is a multiple of this number. -/
  frequency : UInt32
  deriving DecidableEq, Repr

inductive SettingsError where
  | unreadable
  | invalidFrequency (frequency : UInt32)
  deriving DecidableEq, Repr

def SettingsError.message : SettingsError → String
  | .unreadable => "invalid engine configuration"
  | .invalidFrequency frequency => s!"aggregation frequency must be at least 1, got {frequency}"

namespace Settings

/-- The best of all combinations, on every tick. -/
def standard : Settings := ⟨.exhaustive, 1⟩

def validate (s : Settings) : Except SettingsError Settings :=
  if s.frequency = 0 then .error (.invalidFrequency s.frequency) else .ok s

end Settings

end DemandResponse
