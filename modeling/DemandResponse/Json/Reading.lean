import DemandResponse.Json.Token

/-!
# Reading JSON

Tokens are taken up one by one. What is expected next is a state, and the arrays and objects that
are still open are a stack of frames, so nesting of any depth can be read. A text is a value if
its tokens make up exactly one.
-/

namespace DemandResponse.Json

/-- What may follow. Items and members read so far are kept latest first. -/
inductive Expecting where
  | value
  | firstItem
  | nextItem (items : List Json)
  | firstKey
  | key (members : List (Text × Json))
  | colon (members : List (Text × Json)) (key : Text)
  | nextMember (members : List (Text × Json))
  | nothing (j : Json)

/-- An array or object around the value that is being read. -/
inductive Frame where
  | item (items : List Json)
  | member (members : List (Text × Json)) (key : Text)

structure Progress where
  expecting : Expecting
  frames : List Frame

namespace Progress

def start : Progress := ⟨.value, []⟩

/-- Put a complete value into the innermost frame. -/
def put (j : Json) : List Frame → Progress
  | [] => ⟨.nothing j, []⟩
  | .item items :: frames => ⟨.nextItem (j :: items), frames⟩
  | .member members key :: frames => ⟨.nextMember ((key, j) :: members), frames⟩

def begin (frames : List Frame) : Token → Option Progress
  | .null => some (put .null frames)
  | .bool b => some (put (.bool b) frames)
  | .num n => some (put (.num n) frames)
  | .str text => some (put (.str text) frames)
  | .openArray => some ⟨.firstItem, frames⟩
  | .openObject => some ⟨.firstKey, frames⟩
  | _ => none

def step (p : Progress) (token : Token) : Option Progress :=
  match p.expecting, token with
  | .value, token => begin p.frames token
  | .firstItem, .closeArray => some (put (.arr []) p.frames)
  | .firstItem, token => begin (.item [] :: p.frames) token
  | .nextItem items, .comma => some ⟨.value, .item items :: p.frames⟩
  | .nextItem items, .closeArray => some (put (.arr items.reverse) p.frames)
  | .firstKey, .closeObject => some (put (.obj []) p.frames)
  | .firstKey, .str key => some ⟨.colon [] key, p.frames⟩
  | .key members, .str key => some ⟨.colon members key, p.frames⟩
  | .colon members key, .colon => some ⟨.value, .member members key :: p.frames⟩
  | .nextMember members, .comma => some ⟨.key members, p.frames⟩
  | .nextMember members, .closeObject => some (put (.obj members.reverse) p.frames)
  | _, _ => none

def value? (p : Progress) : Option Json :=
  match p.expecting with
  | .nothing j => some j
  | _ => none

end Progress

def ofTokens? (tokens : List Token) : Option Json :=
  (tokens.foldlM Progress.step Progress.start).bind Progress.value?

def parse? (text : String) : Option Json := (Token.scan text.toList).bind ofTokens?

end DemandResponse.Json
