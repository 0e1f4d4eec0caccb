import Std.Data.TreeMap
import FacetIndex.Path

set_option autoImplicit false

/-!
# Dimensions

What an application says about its dimensions: whether values form a hierarchy, whether a document
may have several, whether the dimension itself is counted, and which index field its values go to.
A dimension about which nothing is said has the default settings.

The settings are not part of the index.  Whoever searches has to use the settings that were used
for indexing; `Store.drillDown` gives the term to search for under the settings of a store.
-/

namespace FacetIndex.Dimension

/-- The field that values go to unless another one is named. -/
def defaultIndexField : String := "$facets"

/-- The settings of one dimension. -/
structure Settings where
  /-- A path may have several components. -/
  hierarchical : Bool := false
  /-- A document may have several values. -/
  multiValued : Bool := false
  /-- The dimension itself is counted. -/
  requireCount : Bool := false
  /-- The index field that terms and counts go to. -/
  indexField : String := defaultIndexField
  deriving DecidableEq, Repr, Inhabited

namespace Settings

/-- The ancestors of a value are stored with it.  With several values per document they cannot be
added up at search time, since two values may share an ancestor; with one value per document they
can, and need not be stored. -/
def storesAncestors (s : Settings) : Bool := s.multiValued && (s.hierarchical || s.requireCount)

end Settings

/-- One change to the settings of a dimension. -/
inductive Change where
  /-- Says whether paths may have several components. -/
  | hierarchical (on : Bool)
  /-- Says whether a document may have several values. -/
  | multiValued (on : Bool)
  /-- Says whether the dimension itself is counted. -/
  | requireCount (on : Bool)
  /-- Names the index field. -/
  | indexField (name : String)
  /-- Replaces all settings. -/
  | all (settings : Settings)
  deriving DecidableEq, Repr, Inhabited

/-- The settings after a change. -/
def Change.apply : Change → Settings → Settings
  | .hierarchical on, s => { s with hierarchical := on }
  | .multiValued on, s => { s with multiValued := on }
  | .requireCount on, s => { s with requireCount := on }
  | .indexField name, s => { s with indexField := name }
  | .all settings, _ => settings

/-- The settings of the dimensions about which something was said. -/
structure Store where
  /-- The settings by dimension. -/
  entries : Std.TreeMap String Settings := ∅

/-- A term to search for, and the field to search. -/
structure DrillDown where
  /-- The index field. -/
  field : String
  /-- The term. -/
  term : String
  deriving DecidableEq, Repr, Inhabited

namespace Store

/-- The settings of a dimension if something was said about it. -/
def find? (store : Store) (dimension : String) : Option Settings := store.entries[dimension]?

/-- The settings of a dimension. -/
def get (store : Store) (dimension : String) : Settings := (store.find? dimension).getD {}

/-- Replaces the settings of a dimension. -/
def set (store : Store) (dimension : String) (settings : Settings) : Store :=
  ⟨store.entries.insert dimension settings⟩

/-- Changes the settings of a dimension, starting from the default ones where nothing was said. -/
def change (store : Store) (dimension : String) (c : Change) : Store :=
  store.set dimension (c.apply (store.get dimension))

/-- The dimensions about which something was said, in ascending order, with their settings. -/
def toList (store : Store) : List (String × Settings) := store.entries.toList

/-- The store with the given entries; of several for one dimension the last one counts. -/
def ofList (entries : List (String × Settings)) : Store :=
  entries.foldl (fun store e => store.set e.1 e.2) {}

/-- The term that finds the documents of a category, and the field it is in. -/
def drillDown (store : Store) (dimension : String) (path : List String) : DrillDown :=
  ⟨(store.get dimension).indexField, Path.encode (dimension :: path)⟩

@[simp] theorem find?_set (store : Store) (dimension other : String) (settings : Settings) :
    (store.set dimension settings).find? other =
      if dimension = other then some settings else store.find? other := by
  simp [set, find?, Std.TreeMap.getElem?_insert]

theorem get_set (store : Store) (dimension other : String) (settings : Settings) :
    (store.set dimension settings).get other =
      if dimension = other then settings else store.get other := by
  rw [get, find?_set]
  split <;> simp [get]

/-- A change touches the settings of its own dimension only. -/
theorem get_change (store : Store) (dimension other : String) (c : Change) :
    (store.change dimension c).get other =
      if dimension = other then c.apply (store.get other) else store.get other := by
  rw [change, get_set]
  split
  · rename_i h
    rw [h]
  · rfl

end Store

end FacetIndex.Dimension
