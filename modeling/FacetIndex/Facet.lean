import FacetIndex.Association
import FacetIndex.Label

set_option autoImplicit false

/-!
# Facets

A document says with facets which categories it belongs to.  There are three kinds, and each is
resolved into index fields in its own way.
-/

namespace FacetIndex

/-- One facet of a document. -/
inductive Facet where
  /-- The document belongs to a category of the taxonomy and to all categories above it. -/
  | category (label : Label) (path_ne : label.path ≠ [])
  /-- The document has a value in a dimension that is counted without a taxonomy. -/
  | member (dimension value : String) (dimension_ne : dimension ≠ "") (value_ne : value ≠ "")
  /-- The document attaches a value to a category. -/
  | association (label : Label) (value : Association.Value) (path_ne : label.path ≠ [])

namespace Facet

/-- The dimension a facet is on. -/
def dimension : Facet → String
  | .category label _ => label.dimension
  | .member dimension .. => dimension
  | .association label .. => label.dimension

/-- The label with the given parts, which has to reach below its dimension. -/
def deepLabel (dimension : String) (path : List String) :
    Except Violation { l : Label // l.path ≠ [] } :=
  match Label.ofComponents (dimension :: path) with
  | .error violation => .error violation
  | .ok label =>
      if h : label.path = [] then .error (.missingPath label.dimension) else .ok ⟨label, h⟩

/-- The facet of a category. -/
def ofPath (dimension : String) (path : List String) : Except Violation Facet :=
  (deepLabel dimension path).map fun l => .category l.1 l.2

/-- The facet of a value in a dimension, under the rules of a label of these two components. -/
def ofMember (dimension value : String) : Except Violation Facet :=
  if hd : dimension = "" then .error .emptyDimension
  else if hv : value = "" then .error (.emptyComponent 1 dimension)
  else .ok (.member dimension value hd hv)

/-- The facet of a value attached to a category. -/
def ofAssociation (dimension : String) (path : List String) (value : Association.Value) :
    Except Violation Facet :=
  (deepLabel dimension path).map fun l => .association l.1 value l.2

end Facet

end FacetIndex
