import FacetIndex.Dimension
import FacetIndex.Error
import FacetIndex.Json.Record

set_option autoImplicit false

/-!
# Stored settings

The settings of a store are kept as a JSON object: a member for each dimension about which something
was said, in ascending order, with all four settings.  When they are read a setting that is not
there has its default, and members that are no settings are passed over.
-/

namespace FacetIndex.Dimension

namespace Settings

/-- The settings of a dimension as they are stored. -/
def toJson (s : Settings) : Json :=
  .record [
    ("hierarchical", .bool s.hierarchical),
    ("multi_valued", .bool s.multiValued),
    ("require_dim_count", .bool s.requireCount),
    ("index_field_name", .str s.indexField)]

/-- The names of the settings. -/
def shape : Json.RecordShape where
  fields := ["hierarchical", "multi_valued", "require_dim_count", "index_field_name"]
  lenient := true

/-- Reads the settings of a dimension. -/
def ofJson? (v : Json) : Option Settings := do
  let fields ← shape.read v
  let hierarchical ← Json.optional? fields "hierarchical" false Json.asBool?
  let multiValued ← Json.optional? fields "multi_valued" false Json.asBool?
  let requireCount ← Json.optional? fields "require_dim_count" false Json.asBool?
  let indexField ← Json.optional? fields "index_field_name" defaultIndexField Json.asString?
  return { hierarchical, multiValued, requireCount, indexField }

end Settings

namespace Store

/-- The settings of a store as one value. -/
def toJson (store : Store) : Json :=
  .record (store.toList.map fun e => (e.1, e.2.toJson))

/-- The stored form of the settings. -/
def save (store : Store) : String := store.toJson.pretty

/-- Reads stored settings.  Of several members for one dimension the last one counts. -/
def load (text : String) : Except Error Store :=
  match (Json.ofString? text).bind (Json.asMembers? Settings.ofJson?) with
  | some entries => .ok (ofList entries)
  | none => .error (.argument "json" "invalid dimension config")

end Store

end FacetIndex.Dimension
