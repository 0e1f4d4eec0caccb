import FacetIndex.Admission
import FacetIndex.OrdinalSet
import FacetIndex.Routing
import FacetIndex.Taxonomy

set_option autoImplicit false

/-!
# Indexing documents

The facets of a document are resolved into terms and values for counting.

* The categories of an index field give one term for each category and each ancestor of it, and one
  blob with the set of their ordinals.  Where the settings say so the set also has the ordinals of
  the ancestors, and that of the dimension if it is to be counted.
* A value counted without a taxonomy gives its full path as a stored value and as a term, and its
  dimension as a term.
* The associations of an index field give one blob of records and no terms.

`Taxonomy.resolve` asks the taxonomy whenever it needs an ordinal.  `Indexer.build` resolves an
admitted document and asks each question once; a document that is refused reaches neither the
taxonomy nor the kinds that the indexer remembers.
-/

namespace FacetIndex

variable {σ : Type}

namespace Taxonomy

/-- The ancestors of an ordinal below the root, the nearest first.  After `steps` questions the
search is given up. -/
def ancestors (t : Taxonomy σ) : (steps : Nat) → Ordinal → Ask σ (List Ordinal)
  | 0, o => throw (.endlessAncestry o)
  | steps + 1, o => do
      let parent ← t.parentOf o
      if 0 < parent then
        let further ← ancestors t steps parent
        return parent :: further
      else return []

/-- More questions than this are never needed, since no ordinal comes twice in a search that ends.
-/
def ancestorSteps : Nat := Ordinal.largest + 1

/-- The ordinals that stand for a category in the blob of its field.  The topmost ancestor is the
dimension itself, which is left out unless it is to be counted. -/
def ordinalsOf (t : Taxonomy σ) (settings : Dimension.Settings) (label : Label) :
    Ask σ (List Ordinal) := do
  let ordinal ← t.addCategory label
  if settings.storesAncestors then
    let above ← t.ancestors ancestorSteps ordinal
    return ordinal :: (if settings.requireCount then above else above.dropLast)
  else return [ordinal]

/-- The blob of the categories that go to one field. -/
def categoryBlob (t : Taxonomy σ) (store : Dimension.Store) (labels : List Label) :
    Ask σ Bytes := do
  let ordinals ← labels.mapM fun label => t.ordinalsOf (store.get label.dimension) label
  match OrdinalSet.encode ordinals.flatten with
  | .ok blob => return blob
  | .error e => throw e

/-- The blob of the associations that go to one field. -/
def associationBlob (t : Taxonomy σ) (values : List (Label × Association.Value)) :
    Ask σ Bytes := do
  let records ← values.mapM fun v => do
    let ordinal ← t.addCategory v.1
    return Association.record ordinal v.2
  return records.flatten

end Taxonomy

/-- The terms of the categories that go to one field. -/
def categoryTerms (field : String) (labels : List Label) : List TextField :=
  labels.flatMap fun label => label.ladder.map fun term => ⟨field, term⟩

/-- The stored form of a value counted without a taxonomy. -/
def memberPath (m : String × String) : String := Path.encode [m.1, m.2]

/-- The terms of a value counted without a taxonomy: its full path and its dimension. -/
def memberTerms (field : String) (members : List (String × String)) : List TextField :=
  members.flatMap fun m => [⟨field, memberPath m⟩, ⟨field, m.1⟩]

/-- The values for counting of such values. -/
def memberValues (field : String) (members : List (String × String)) : List CountingField :=
  members.map fun m => ⟨field, .sortedSet (memberPath m).toUTF8.data.toList⟩

/-- What the facets of a document are resolved into. -/
def Taxonomy.resolve (t : Taxonomy σ) (store : Dimension.Store) (d : Document) :
    Ask σ Addition := do
  let categories := store.routeCategories d
  let members := store.routeMembers d
  let categoryBlobs ← categories.mapM fun group => do
    let blob ← t.categoryBlob store group.2
    return CountingField.mk group.1 (.binary blob)
  let associationBlobs ← (store.routeAssociations d).mapM fun group => do
    let blob ← t.associationBlob group.2
    return CountingField.mk group.1 (.binary blob)
  return {
    terms :=
      categories.flatMap (fun group => categoryTerms group.1 group.2)
        ++ members.flatMap (fun group => memberTerms group.1 group.2)
    counting :=
      categoryBlobs ++ members.flatMap (fun group => memberValues group.1 group.2)
        ++ associationBlobs }

/-- Settings, and the kinds of associations that were indexed under them. -/
structure Indexer where
  /-- The settings of the dimensions. -/
  settings : Dimension.Store := {}
  /-- The kind of associations in each index field that has some. -/
  kinds : KindTable := ∅

namespace Indexer

/-- Remembers the kinds of a document; what is known of a field stays. -/
def track (ix : Indexer) (kinds : KindTable) : Indexer :=
  { ix with kinds := kinds.foldl (fun known field kind => known.insertIfNew field kind) ix.kinds }

/-- Resolves the facets of a document, with the indexer and the state of the taxonomy behind it.
A refused document and one on which the taxonomy fails leave the indexer as it was. -/
def build (ix : Indexer) (t : Taxonomy σ) (s : σ) (d : Document) :
    Except Error Built × Indexer × σ :=
  match d.examine ix.settings ix.kinds with
  | .error violation => (.error (.validation violation), ix, s)
  | .ok kinds =>
      match (t.memoised.resolve ix.settings d).from (s, {}) with
      | (.error e, s', _) => (.error e, ix, s')
      | (.ok added, s', _) => (.ok ⟨d, added⟩, ix.track kinds, s')

end Indexer

end FacetIndex
