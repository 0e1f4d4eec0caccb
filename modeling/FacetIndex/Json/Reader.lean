import FacetIndex.Json.Token

set_option autoImplicit false

/-!
# Reading JSON

A value is read token by token.  The reader keeps the arrays and objects that are open around the
place it is at, so a text may be nested to any depth.  Nothing but blanks may follow the value.
-/

namespace FacetIndex.Json

/-- An array or object that is open, with what is in it so far, backwards. -/
inductive Frame where
  /-- An array that waits for an item. -/
  | array (items : List Json)
  /-- An object that waits for the value of a member. -/
  | member (members : List (Text × Json)) (name : Text)

/-- What has to come next; `around` are the frames that are open, the innermost first. -/
inductive Reader where
  /-- A value. -/
  | value (around : List Frame)
  /-- The first item of an array, or its end. -/
  | firstItem (around : List Frame)
  /-- The first name of an object, or its end. -/
  | firstName (around : List Frame)
  /-- A further name of an object. -/
  | nextName (members : List (Text × Json)) (around : List Frame)
  /-- The colon behind a name. -/
  | colon (members : List (Text × Json)) (name : Text) (around : List Frame)
  /-- A comma in an array, or its end. -/
  | afterItem (items : List Json) (around : List Frame)
  /-- A comma in an object, or its end. -/
  | afterMember (members : List (Text × Json)) (around : List Frame)
  /-- Nothing. -/
  | done (value : Json)

namespace Reader

/-- Puts a finished value where it belongs. -/
def deliver (v : Json) : List Frame → Reader
  | [] => .done v
  | .array items :: around => .afterItem (v :: items) around
  | .member members name :: around => .afterMember ((name, v) :: members) around

/-- Takes the first token of a value. -/
def begin (around : List Frame) : Token → Option Reader
  | .word v => some (deliver v around)
  | .text t => some (deliver (.text t) around)
  | .beginArray => some (.firstItem around)
  | .beginObject => some (.firstName around)
  | _ => none

/-- Takes a token. -/
def step : Reader → Token → Option Reader
  | .value around, t => begin around t
  | .firstItem around, .endArray => some (deliver (.array []) around)
  | .firstItem around, t => begin (.array [] :: around) t
  | .firstName around, .endObject => some (deliver (.object []) around)
  | .firstName around, .text name => some (.colon [] name around)
  | .nextName members around, .text name => some (.colon members name around)
  | .colon members name around, .colon => some (.value (.member members name :: around))
  | .afterItem items around, .comma => some (.value (.array items :: around))
  | .afterItem items around, .endArray => some (deliver (.array items.reverse) around)
  | .afterMember members around, .comma => some (.nextName members around)
  | .afterMember members around, .endObject => some (deliver (.object members.reverse) around)
  | _, _ => none

end Reader

/-- The value that tokens make up. -/
def ofTokens? (ts : List Token) : Option Json :=
  match ts.foldlM Reader.step (.value []) with
  | some (.done v) => some v
  | _ => none

/-- The value that a text holds. -/
def ofString? (s : String) : Option Json := (tokens s.toList).bind ofTokens?

end FacetIndex.Json
