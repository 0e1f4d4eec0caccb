import FacetIndex.Association.Kind
import FacetIndex.Json.Record

set_option autoImplicit false

/-!
# Stored association kinds

A kind is stored as its name.  An object whose one member has that name and no value is read as the
kind too.
-/

namespace FacetIndex.Association.Kind

/-- A kind as it is stored. -/
def toJson (k : Kind) : Json := .str k.name

/-- Reads a kind. -/
def ofJson? : Json → Option Kind
  | .text (some name) => ofName? name
  | .object [(some name, .null)] => ofName? name
  | _ => none

/-- The stored form of a kind. -/
def save (k : Kind) : String := k.toJson.compact

/-- Reads a stored kind. -/
def load? (text : String) : Option Kind := (Json.ofString? text).bind ofJson?

end FacetIndex.Association.Kind
