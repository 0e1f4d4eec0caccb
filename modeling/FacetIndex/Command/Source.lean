import Std.Data.TreeMap
import FacetIndex.Document
import FacetIndex.Json.Record
import FacetIndex.Text.Hex

set_option autoImplicit false

/-!
# Source documents

A source document is a JSON record with named texts and facets.  A facet names a dimension and, with
it, a path, a `label` that is counted without a taxonomy, or a path and a value of one kind.  The
text fields of a document are taken in ascending order of their names; of several with one name the
last one counts.
-/

namespace FacetIndex.Source

/-- A facet as it is written. -/
structure Facet where
  /-- The dimension. -/
  dimension : String
  /-- The path below the dimension. -/
  path : List String := []
  /-- A value counted without a taxonomy. -/
  label : Option String := none
  /-- An integer to attach. -/
  int : Option Int32 := none
  /-- A single-precision number to attach. -/
  float : Option Single := none
  /-- Bytes to attach, as hexadecimal text. -/
  bytes : Option String := none
  deriving DecidableEq, Repr, Inhabited

/-- A document as it is written. -/
structure Document where
  /-- The text fields. -/
  fields : List (String × String) := []
  /-- The facets. -/
  facets : List Facet := []
  deriving DecidableEq, Repr, Inhabited

/-! ## Reading -/

/-- The names of the parts of a facet.  As an array a facet has all of them. -/
def Facet.shape : Json.RecordShape where
  fields := ["dim", "path", "label", "int", "float", "bytes"]
  leastItems := 6

/-- The number that a value holds. -/
def asNumeral? : Json → Option Numeral
  | .number n => some n
  | _ => none

/-- Reads a facet. -/
def Facet.ofJson? (v : Json) : Option Facet := do
  let fields ← shape.read v
  let dimension ← Json.required? fields "dim" Json.asString?
  let path ← Json.optional? fields "path" [] (Json.asList? Json.asString?)
  let label ← Json.optional? fields "label" none (Json.asOption? Json.asString?)
  let int ← Json.optional? fields "int" none
    (Json.asOption? fun v => (asNumeral? v).bind Numeral.toInt32?)
  let float ← Json.optional? fields "float" none
    (Json.asOption? fun v => (asNumeral? v).bind Numeral.toSingle?)
  let bytes ← Json.optional? fields "bytes" none (Json.asOption? Json.asString?)
  return { dimension, path, label, int, float, bytes }

/-- The names of the parts of a document. -/
def Document.shape : Json.RecordShape where
  fields := ["fields", "facets"]

/-- Reads a document. -/
def Document.ofJson? (v : Json) : Option Document := do
  let parts ← shape.read v
  let fields ← Json.optional? parts "fields" [] (Json.asMembers? Json.asString?)
  let facets ← Json.optional? parts "facets" [] (Json.asList? Facet.ofJson?)
  return { fields, facets }

/-! ## Meaning -/

/-- Why a source document stands for no document. -/
inductive Fault where
  /-- A facet has values of two kinds. -/
  | severalValues (dimension : String)
  /-- A facet has a label and a path. -/
  | labelAndPath (dimension : String)
  /-- A facet has a label and a value. -/
  | labelAndValue (dimension : String)
  /-- The bytes to attach are not hexadecimal text. -/
  | hex (fault : Hex.Fault)
  /-- A facet breaks a rule of labels. -/
  | violation (violation : Violation)
  deriving DecidableEq, Repr, Inhabited

/-- The wording of a fault. -/
def Fault.message : Fault → String
  | .severalValues dimension => s!"Facet on \"{dimension}\" has more than one association value"
  | .labelAndPath dimension => s!"Facet on \"{dimension}\" has both a label and a path"
  | .labelAndValue dimension => s!"Sorted-set facet on \"{dimension}\" cannot carry a value"
  | .hex fault => fault.message
  | .violation v => (Error.validation v).message

/-- The value to attach. -/
def Facet.value (f : Facet) : Except Fault (Option Association.Value) :=
  match f.int, f.float, f.bytes with
  | none, none, none => .ok none
  | some v, none, none => .ok (some (.int v))
  | none, some v, none => .ok (some (.float v))
  | none, none, some text =>
      match Hex.decode text with
      | .error fault => .error (.hex fault)
      | .ok payload => .ok (some (.bytes payload))
  | _, _, _ => .error (.severalValues f.dimension)

/-- The facet that is meant. -/
def Facet.meaning (f : Facet) : Except Fault FacetIndex.Facet :=
  match f.value with
  | .error fault => .error fault
  | .ok value =>
      match f.label, value with
      | some label, none =>
          if f.path.isEmpty then (FacetIndex.Facet.ofMember f.dimension label).mapError .violation
          else .error (.labelAndPath f.dimension)
      | some _, some _ => .error (.labelAndValue f.dimension)
      | none, some v => (FacetIndex.Facet.ofAssociation f.dimension f.path v).mapError .violation
      | none, none => (FacetIndex.Facet.ofPath f.dimension f.path).mapError .violation

/-- The meaning of facets, or the first fault. -/
def meanings : List Facet → Except Fault (List FacetIndex.Facet)
  | [] => .ok []
  | f :: fs =>
      match f.meaning with
      | .error fault => .error fault
      | .ok facet =>
          match meanings fs with
          | .error fault => .error fault
          | .ok facets => .ok (facet :: facets)

/-- The text fields by name. -/
def Document.table (d : Document) : Std.TreeMap String String :=
  d.fields.foldl (fun table f => table.insert f.1 f.2) ∅

/-- The text fields in ascending order of their names. -/
def Document.texts (d : Document) : List TextField := d.table.toList.map fun f => ⟨f.1, f.2⟩

/-- The document that is meant: the text fields, then the facets in the order in which they are
written. -/
def Document.meaning (d : Document) : Except Fault FacetIndex.Document :=
  match meanings d.facets with
  | .error fault => .error fault
  | .ok facets => .ok { indexable := d.texts.map .text ++ facets.map .facet }

end FacetIndex.Source
