/-!
# Names

Sites and participants are known by arbitrary texts. The two kinds of name are kept apart by
their types; both are ordered by code points.
-/

namespace DemandResponse

structure SiteId where
  text : String
  deriving DecidableEq, Repr

structure ParticipantId where
  text : String
  deriving DecidableEq, Repr

instance : Ord SiteId := ⟨fun a b => compare a.text b.text⟩

instance : Ord ParticipantId := ⟨fun a b => compare a.text b.text⟩

end DemandResponse
