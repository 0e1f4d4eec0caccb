import FacetIndex.Dimension
import FacetIndex.Document

set_option autoImplicit false

/-!
# Admission

A document is resolved only if its facets keep four rules under the settings of their dimensions:

* a dimension of single values has at most one value, associations not counted;
* a path of several components is on a hierarchical dimension;
* an association is on a dimension that is neither hierarchical nor counted;
* the associations of one index field are of one kind, in this document and in those before it.

The facets are looked at in the order of the document, and the first that breaks a rule is the one
that is reported.
-/

namespace FacetIndex

/-- The kind of associations in each index field that has some. -/
abbrev KindTable : Type := Std.TreeMap String Association.Kind

/-- What is known of the facets looked at so far. -/
structure Admission where
  /-- The dimensions of single values that have their value. -/
  seen : List String := []
  /-- The kinds of the associations of this document. -/
  kinds : KindTable := ∅

namespace Admission

/-- Notes that a dimension has a value. -/
def see (a : Admission) (settings : Dimension.Settings) (dimension : String) :
    Except Violation Admission :=
  if settings.multiValued then .ok a
  else if dimension ∈ a.seen then .error (.repeatedDimension dimension)
  else .ok { a with seen := dimension :: a.seen }

/-- Notes that an index field has an association; `tracked` are the kinds of earlier documents. -/
def attach (a : Admission) (tracked : KindTable) (field : String) (kind : Association.Kind) :
    Except Violation Admission :=
  match a.kinds[field]?.or tracked[field]? with
  | none => .ok { a with kinds := a.kinds.insert field kind }
  | some current =>
      if current = kind then .ok { a with kinds := a.kinds.insert field kind }
      else .error (.mixedKinds current kind field)

/-- Looks at one facet. -/
def examine (store : Dimension.Store) (tracked : KindTable) (a : Admission) :
    Facet → Except Violation Admission
  | .category label _ =>
      let settings := store.get label.dimension
      match a.see settings label.dimension with
      | .error violation => .error violation
      | .ok a' =>
          if 1 < label.path.length && !settings.hierarchical then
            .error (.flatDimension label.dimension label.path.length)
          else .ok a'
  | .member dimension .. => a.see (store.get dimension) dimension
  | .association label value _ =>
      let settings := store.get label.dimension
      if settings.hierarchical then .error (.hierarchicalAssociation label.dimension)
      else if settings.requireCount then .error (.countedAssociation label.dimension)
      else a.attach tracked settings.indexField value.kind

/-- Looks at facets one after the other. -/
def examineAll (store : Dimension.Store) (tracked : KindTable) :
    Admission → List Facet → Except Violation Admission
  | a, [] => .ok a
  | a, f :: fs =>
      match a.examine store tracked f with
      | .error violation => .error violation
      | .ok a' => examineAll store tracked a' fs

end Admission

/-- The kinds of the associations of a document that keeps the rules. -/
def Document.examine (store : Dimension.Store) (tracked : KindTable) (d : Document) :
    Except Violation KindTable :=
  match Admission.examineAll store tracked {} d.facets with
  | .error violation => .error violation
  | .ok a => .ok a.kinds

end FacetIndex
