import FacetIndex.Facet

set_option autoImplicit false

/-!
# Documents

A document has two streams.  The indexable stream holds text fields, which go into the index as
terms, and facets, which have to be resolved first.  The stored stream holds values that are kept
per document.  A built document shows the text fields and the stored fields of its source, each
followed by what the facets were resolved into; it shows no facets.
-/

namespace FacetIndex

/-- A term to index under the name of a field. -/
structure TextField where
  /-- The name of the field. -/
  name : String
  /-- The term. -/
  term : String
  deriving DecidableEq, Repr, Inhabited

/-- One item of the indexable stream. -/
inductive Item where
  /-- A term. -/
  | text (field : TextField)
  /-- A facet that is to be resolved. -/
  | facet (facet : Facet)

namespace Item

/-- The name of the field, or the dimension of the facet. -/
def name : Item → String
  | .text field => field.name
  | .facet f => f.dimension

/-- The item is a facet. -/
def isFacet : Item → Bool
  | .text _ => false
  | .facet _ => true

/-- The term of a text field; a facet has none. -/
def term? : Item → Option String
  | .text field => some field.term
  | .facet _ => none

end Item

/-- A value that is read while counting. -/
inductive DocValues where
  /-- A blob that holds everything the document says in the field. -/
  | binary (blob : Bytes)
  /-- One value of a set that the index keeps sorted. -/
  | sortedSet (value : Bytes)
  deriving DecidableEq, Repr, Inhabited

/-- The bytes of such a value. -/
def DocValues.bytes : DocValues → Bytes
  | .binary blob => blob
  | .sortedSet value => value

/-- A value kept per document. -/
inductive StoredValue where
  /-- A text. -/
  | text (value : String)
  /-- A 64-bit integer. -/
  | int (value : Int64)
  /-- A double-precision number by its bits. -/
  | float (bits : UInt64)
  /-- Bytes that are only given back. -/
  | binary (payload : Bytes)
  /-- A value that is read while counting. -/
  | docValues (value : DocValues)
  deriving DecidableEq, Repr, Inhabited

/-- The bytes of a value that is made of bytes. -/
def StoredValue.bytes? : StoredValue → Option Bytes
  | .text _ | .int _ | .float _ => none
  | .binary payload => some payload
  | .docValues value => some value.bytes

/-- A value kept under the name of a field. -/
structure StoredField where
  /-- The name of the field. -/
  name : String
  /-- The value. -/
  value : StoredValue
  deriving DecidableEq, Repr, Inhabited

/-- A value for counting kept under the name of a field. -/
structure CountingField where
  /-- The name of the field. -/
  name : String
  /-- The value. -/
  value : DocValues
  deriving DecidableEq, Repr, Inhabited

/-- A document as the application hands it over. -/
structure Document where
  /-- The indexable stream. -/
  indexable : List Item := []
  /-- The stored stream. -/
  stored : List StoredField := []

namespace Document

/-- The facets, in the order of the document. -/
def facets (d : Document) : List Facet :=
  d.indexable.filterMap fun
    | .facet f => some f
    | .text _ => none

/-- The text fields, in the order of the document. -/
def texts (d : Document) : List TextField :=
  d.indexable.filterMap fun
    | .facet _ => none
    | .text field => some field

end Document

/-- What the resolved facets of a document add to it. -/
structure Addition where
  /-- Terms for drill-down. -/
  terms : List TextField := []
  /-- Blobs and values for counting. -/
  counting : List CountingField := []
  deriving DecidableEq, Repr, Inhabited

/-- A document whose facets are resolved. -/
structure Built where
  /-- The document with its facets. -/
  source : Document
  /-- What the facets were resolved into. -/
  added : Addition

namespace Built

/-- The terms to index: those of the source, then the added ones. -/
def indexed (b : Built) : List TextField := b.source.texts ++ b.added.terms

/-- The values to keep: those of the source, then the added ones. -/
def stored (b : Built) : List StoredField :=
  b.source.stored ++ b.added.counting.map fun f => ⟨f.name, .docValues f.value⟩

/-- The terms under one name. -/
def termsOf (b : Built) (name : String) : List String :=
  (b.indexed.filter (·.name = name)).map (·.term)

/-- The values under one name. -/
def storedOf (b : Built) (name : String) : List StoredValue :=
  (b.stored.filter (·.name = name)).map (·.value)

end Built

end FacetIndex
