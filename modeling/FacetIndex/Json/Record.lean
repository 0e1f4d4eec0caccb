import FacetIndex.Json.Reader

set_option autoImplicit false

/-!
# JSON values with a fixed meaning

Readers for the parts that records are made of.  A record is written as an object, or as an array
of its fields in the order of their declaration.  A field is written at most once.
-/

namespace FacetIndex.Json

/-- The string of a text. -/
def asString? : Json → Option String
  | .text t => t
  | _ => none

/-- A truth value. -/
def asBool? : Json → Option Bool
  | .bool b => some b
  | _ => none

/-- The items of a list, each read in the same way. -/
def asList? {α : Type} (item : Json → Option α) : Json → Option (List α)
  | .array items => items.mapM item
  | _ => none

/-- The members of an object, each value read in the same way, in the order in which they are
written. -/
def asMembers? {α : Type} (value : Json → Option α) : Json → Option (List (String × α))
  | .object members =>
      members.mapM fun (name, v) =>
        match name, value v with
        | some name, some v => some (name, v)
        | _, _ => none
  | _ => none

/-- A value, or nothing where `null` is written. -/
def asOption? {α : Type} (value : Json → Option α) : Json → Option (Option α)
  | .null => some none
  | v => (value v).map some

/-- The fields of a record. -/
structure RecordShape where
  /-- The names of the fields, in the order of their declaration. -/
  fields : List String
  /-- An array has at least so many items. -/
  leastItems : Nat := 0
  /-- Other members are passed over instead of refused. -/
  lenient : Bool := false

namespace RecordShape

/-- Adds a member to the fields that are read. -/
def take (shape : RecordShape) (found : List (String × Json)) :
    Text × Json → Option (List (String × Json))
  | (none, _) => none
  | (some name, v) =>
      if name ∈ shape.fields then
        if (found.lookup name).isSome then none else some ((name, v) :: found)
      else if shape.lenient then some found
      else none

/-- The fields that are written. -/
def read (shape : RecordShape) : Json → Option (List (String × Json))
  | .object members => members.foldlM shape.take []
  | .array items =>
      if shape.leastItems ≤ items.length && items.length ≤ shape.fields.length then
        some (shape.fields.zip items)
      else none
  | _ => none

end RecordShape

/-- Reads a field that has to be written. -/
def required? {α : Type} (fields : List (String × Json)) (name : String)
    (value : Json → Option α) : Option α :=
  (fields.lookup name).bind value

/-- Reads a field that stands for a default where it is not written. -/
def optional? {α : Type} (fields : List (String × Json)) (name : String) (absent : α)
    (value : Json → Option α) : Option α :=
  match fields.lookup name with
  | none => some absent
  | some v => value v

end FacetIndex.Json
