import FacetIndex.Association.Kind

set_option autoImplicit false

/-!
# Errors

What can go wrong, said as causes.  The wording of every cause stands in this module: a `message`
is the text that a user reads.

* `Violation`: a label or a document breaks a rule.
* `Misconfiguration`: an indexer lacks what a document needs.
* `FormatFault`: stored bytes or text are not in the form they are read in.
* `Error`: any of these, a refused argument, or a failure of the taxonomy.
-/

namespace FacetIndex

/-- A rule of labels or documents that an input breaks. -/
inductive Violation where
  /-- A label has no components at all. -/
  | emptyLabel
  /-- The dimension of a label is the empty string. -/
  | emptyDimension
  /-- A component behind the dimension is the empty string; the dimension is at position 0. -/
  | emptyComponent (position : Nat) (dimension : String)
  /-- A facet names a dimension and nothing below it. -/
  | missingPath (dimension : String)
  /-- A dimension of single values has two values in one document. -/
  | repeatedDimension (dimension : String)
  /-- A flat dimension has a path of several components. -/
  | flatDimension (dimension : String) (components : Nat)
  /-- An association is on a hierarchical dimension. -/
  | hierarchicalAssociation (dimension : String)
  /-- An association is on a dimension that requires a count of its own. -/
  | countedAssociation (dimension : String)
  /-- Associations of two kinds meet in one index field. -/
  | mixedKinds (current new : Association.Kind) (field : String)
  /-- A rule of the application. -/
  | custom (reason : String)
  deriving DecidableEq, Repr, Inhabited

namespace Violation

/-- The wording of a violation. -/
def message : Violation → String
  | .emptyLabel => "facet label must have at least one component"
  | .emptyDimension => "facet dimension must not be empty"
  | .emptyComponent position dimension =>
      s!"empty path component at position {position} (dim=\"{dimension}\")"
  | .missingPath dimension => s!"path must have at least one component (dim=\"{dimension}\")"
  | .repeatedDimension dimension =>
      s!"dimension \"{dimension}\" is not multi-valued, "
        ++ "but it appears more than once in this document"
  | .flatDimension dimension components =>
      s!"dimension \"{dimension}\" is not hierarchical yet has {components} components"
  | .hierarchicalAssociation dimension =>
      s!"association facet cannot be hierarchical (dim=\"{dimension}\")"
  | .countedAssociation dimension =>
      s!"association facet cannot require dim count (dim=\"{dimension}\")"
  | .mixedKinds current new field =>
      "mixing incompatible types of association facet (" ++ current.name ++ " and " ++ new.name
        ++ ") in indexed field \"" ++ field
        ++ "\"; use DimConfigStore to change the index field name for each dimension"
  | .custom reason => reason

end Violation

/-- What an indexer lacks. -/
inductive Misconfiguration where
  /-- Ordinals are needed and there is no taxonomy to give them. -/
  | missingTaxonomy
  /-- A lack that the application reports. -/
  | custom (reason : String)
  deriving DecidableEq, Repr, Inhabited

namespace Misconfiguration

/-- The wording of a misconfiguration. -/
def message : Misconfiguration → String
  | .missingTaxonomy =>
      "a taxonomy writer must be provided to the builder when using facet or association fields"
  | .custom reason => reason

end Misconfiguration

/-- Why stored bytes or text cannot be read. -/
inductive FormatFault where
  /-- An encoded path ends in an escape mark with nothing to protect. -/
  | danglingEscape
  /-- The bytes end inside a delta, where its group of the given number would stand. -/
  | truncatedDelta (position group : Nat)
  /-- A delta has not ended after the most groups that it may have. -/
  | overlongDelta (position : Nat)
  /-- A delta behind the first one, whose last byte is at the position, is zero. -/
  | zeroDelta (position : Nat)
  /-- The deltas add up to more than the largest ordinal. -/
  | ordinalOverflow (value : Nat)
  /-- A blob of fixed-size records ends inside a record. -/
  | unevenRecords (length : Nat)
  /-- A fault that the application reports. -/
  | custom (element reason : String)
  deriving DecidableEq, Repr, Inhabited

namespace FormatFault

/-- What was being read. -/
def element : FormatFault → String
  | .danglingEscape => "path"
  | .truncatedDelta .. | .overlongDelta .. | .zeroDelta .. | .ordinalOverflow .. => "ordinal set"
  | .unevenRecords .. => "association records"
  | .custom element _ => element

/-- The wording of a fault. -/
def message : FormatFault → String
  | .danglingEscape => "encoded path ends with a dangling escape character"
  | .truncatedDelta position group => s!"truncated delta at byte {position} (group {group})"
  | .overlongDelta position => s!"delta ending at byte {position} exceeds 5 groups"
  | .zeroDelta position => s!"zero delta at byte {position}"
  | .ordinalOverflow value => s!"ordinal {value} overflows"
  | .unevenRecords length => s!"length {length} is not a multiple of 8"
  | .custom _ reason => reason

end FormatFault

/-- Everything that can go wrong. -/
inductive Error where
  /-- A label or a document breaks a rule. -/
  | validation (violation : Violation)
  /-- The indexer lacks what the document needs. -/
  | configuration (lack : Misconfiguration)
  /-- Stored bytes or text cannot be read. -/
  | format (fault : FormatFault)
  /-- The argument of this name does not meet this condition. -/
  | argument (name condition : String)
  /-- The taxonomy failed while it did what the context says, for a reason of its own. -/
  | taxonomy (context source : String)
  /-- The ancestors of an ordinal are never at an end. -/
  | endlessAncestry (ordinal : Int32)
  deriving DecidableEq, Repr, Inhabited

namespace Error

/-- The text of an error. -/
def message : Error → String
  | .validation violation => "validation failed: " ++ violation.message
  | .configuration lack => "configuration error: " ++ lack.message
  | .format fault => "invalid storage format for '" ++ fault.element ++ "': " ++ fault.message
  | .argument name condition => "invalid argument " ++ name ++ ": " ++ condition
  | .taxonomy context _ => "taxonomy error: " ++ context
  | .endlessAncestry ordinal => s!"taxonomy error: the ancestors of {ordinal} have no end"

/-- An input broke a rule; another input may succeed. -/
def isValidation : Error → Bool
  | .validation _ => true
  | _ => false

/-- The indexer is not set up for the input. -/
def isConfiguration : Error → Bool
  | .configuration _ => true
  | _ => false

/-- Accepts when the named argument meets its condition. -/
def require (holds : Bool) (name condition : String) : Except Error Unit :=
  if holds then .ok () else .error (.argument name condition)

end Error

end FacetIndex
