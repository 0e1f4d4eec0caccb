/-
  Proofs/Blobs.lean --- the blobs of an index field.

  WHAT THIS FILE IS FOR.  All the categories that go to an index field are in one
  blob, and so are all the associations that go there.  These are two blobs, each
  in a format of its own, and nothing in a blob says which of the two it is.

  WHAT IS PROVED.

      AreBlobs.exists_blob?
          of one sort of facets, a field has one blob if any go there, and
          otherwise none
      blobsAt_of_build
          which blobs a built document has under the name of a field; every field
          has at most one exactly if no category and no association go to the
          same field
      blobsAt_of_build_sharedField
          under the default settings the two do go to the same field, and two
          blobs stand there

  WHAT IS NOT SAID.  What is in the blobs, beyond their format.  For that see
  `Proofs/Counting.lean`, `Proofs/AssociationRecords.lean` and, for taxonomies of
  any sort, `Proofs/Streams.lean`.
-/
import FacetIndex.Proofs.Resolution
import FacetIndex.Proofs.Routing

set_option autoImplicit false

namespace FacetIndex

/-- The blob of a value for counting, if it is one. -/
def CountingField.blob? (f : CountingField) : Option Bytes :=
  match f.value with
  | .binary blob => some blob
  | .sortedSet _ => none

/-- The blobs under the name of a field, in the order in which they stand. -/
def blobsUnder (field : String) (fields : List CountingField) : List Bytes :=
  (fields.filter (·.name = field)).filterMap CountingField.blob?

/-- The blobs that are added under the name of a field. -/
def Addition.blobsAt (added : Addition) (field : String) : List Bytes :=
  blobsUnder field added.counting

theorem blobsUnder_cons_of_eq (field : String) (blob : Bytes) (fields : List CountingField) :
    blobsUnder field (⟨field, .binary blob⟩ :: fields) = blob :: blobsUnder field fields := by
  simp [blobsUnder, CountingField.blob?]

theorem blobsUnder_cons_of_ne {field : String} {f : CountingField} (h : f.name ≠ field)
    (fields : List CountingField) :
    blobsUnder field (f :: fields) = blobsUnder field fields := by
  rw [blobsUnder, List.filter_cons_of_neg (by rwa [decide_eq_true_eq])]
  rfl

theorem blobsUnder_append (field : String) (fs gs : List CountingField) :
    blobsUnder field (fs ++ gs) = blobsUnder field fs ++ blobsUnder field gs := by
  rw [blobsUnder, List.filter_append, List.filterMap_append]
  rfl

/-- Members have no blobs. -/
theorem blobsUnder_memberFields (field : String) (store : Dimension.Store) (d : Document) :
    blobsUnder field (store.memberFields d) = [] := by
  rw [blobsUnder, List.filterMap_eq_nil_iff]
  intro f hf
  obtain ⟨group, _, hgroup⟩ := List.mem_flatMap.1 (List.mem_filter.1 hf).1
  obtain ⟨m, _, rfl⟩ := List.mem_map.1 hgroup
  rfl

namespace AreBlobs

variable {α : Type} {IsBlob : List α → Bytes → Prop} {groups : List (String × List α)}
  {fields : List CountingField} {field : String}

/-- A field without a group has no blob. -/
theorem blobsUnder_eq_nil (h : AreBlobs IsBlob groups fields)
    (hfield : field ∉ groups.map (·.1)) : blobsUnder field fields = [] := by
  unfold AreBlobs at h
  induction h with
  | nil => rfl
  | cons hone _ ih =>
    obtain ⟨blob, rfl, _⟩ := hone
    obtain ⟨hne, hrest⟩ := List.ne_and_not_mem_of_not_mem_cons hfield
    rw [blobsUnder_cons_of_ne (Ne.symm hne), ih hrest]

/-- A field with one group has one blob. -/
theorem exists_blobsUnder_eq_singleton (h : AreBlobs IsBlob groups fields)
    (hnodup : (groups.map (·.1)).Nodup) {group : String × List α} (hgroup : group ∈ groups) :
    ∃ blob, blobsUnder group.1 fields = [blob] ∧ IsBlob group.2 blob := by
  unfold AreBlobs at h
  induction h with
  | nil => cases hgroup
  | cons hone hrest ih =>
    obtain ⟨blob, rfl, hblob⟩ := hone
    obtain ⟨hfresh, hnodup⟩ := List.nodup_cons.1 hnodup
    rcases List.mem_cons.1 hgroup with rfl | hgroup
    · refine ⟨blob, ?_, hblob⟩
      rw [blobsUnder_cons_of_eq, blobsUnder_eq_nil hrest hfresh]
    · -- The first group has another name, and so has its blob.
      obtain ⟨other, hother, hisBlob⟩ := ih hnodup hgroup
      refine ⟨other, ?_, hisBlob⟩
      rw [blobsUnder_cons_of_ne, hother]
      intro hname
      exact hfresh (List.mem_map.2 ⟨group, hgroup, hname.symm⟩)

/-- A field has a blob of what goes there, if anything does. -/
theorem exists_blob? {route : α → String} {xs : List α}
    (h : AreBlobs IsBlob (Routing.byField route xs) fields) (field : String) :
    ∃ blob? : Option Bytes, blobsUnder field fields = blob?.toList ∧
      (blob?.isSome ↔ ∃ x ∈ xs, route x = field) ∧
      ∀ blob ∈ blob?, IsBlob (xs.filter (route · = field)) blob := by
  have hnodup : ((Routing.byField route xs).map (·.1)).Nodup := by
    rw [Routing.map_fst_byField]
    exact Routing.nodup_names _
  rw [← List.mem_map]
  by_cases hfield : field ∈ xs.map route
  · have hgroup : (field, xs.filter (route · = field)) ∈ Routing.byField route xs :=
      Routing.mem_byField.2 ⟨hfield, rfl⟩
    obtain ⟨blob, hblobs, hblob⟩ := h.exists_blobsUnder_eq_singleton hnodup hgroup
    refine ⟨some blob, hblobs, iff_of_true rfl hfield, fun other hother => ?_⟩
    cases hother
    exact hblob
  · refine ⟨none, h.blobsUnder_eq_nil ?_, iff_of_false Bool.false_ne_true hfield, ?_⟩
    · rwa [Routing.map_fst_byField, Routing.mem_names]
    · intro blob hblob
      cases hblob

end AreBlobs

variable {σ : Type} {t : Taxonomy σ} {ix ix' : Indexer} {s s' : σ} {d : Document} {b : Built}

theorem length_toList_append_le_one_iff {α : Type} {x y : Option α} :
    (x.toList ++ y.toList).length ≤ 1 ↔ ¬ (x.isSome ∧ y.isSome) := by
  cases x <;> cases y <;> simp

/-- Under the name of a field stands an ordinal set if categories go there, and then a blob of
records if associations go there. -/
theorem Indexer.exists_blobs_of_build (hbuild : ix.build t s d = (.ok b, ix', s'))
    (field : String) :
    ∃ set? records? : Option Bytes,
      b.added.blobsAt field = set?.toList ++ records?.toList ∧
      (set?.isSome ↔ ∃ l ∈ d.categories, ix.settings.fieldOf l = field) ∧
      (records?.isSome ↔ ∃ a ∈ d.associations, ix.settings.fieldOf a.1 = field) ∧
      (∀ blob ∈ set?, OrdinalSet.IsBlob blob) ∧
      ∀ blob ∈ records?, Association.IsBlob
        (d.associations.filter fun a => ix.settings.fieldOf a.1 = field) blob := by
  obtain ⟨kinds, memo, _, hresolve, _, _⟩ := build_eq_ok hbuild
  obtain ⟨categoryBlobs, associationBlobs, hadded, hcategories, hassociations⟩ :=
    Taxonomy.exists_blobs_of_resolve hresolve
  obtain ⟨set?, hset, hsome, hisSet⟩ := hcategories.exists_blob? field
  obtain ⟨records?, hrecords, hsome', hareRecords⟩ := hassociations.exists_blob? field
  refine ⟨set?, records?, ?_, hsome, hsome', hisSet, hareRecords⟩
  rw [Addition.blobsAt, hadded, Dimension.Store.addition, blobsUnder_append, blobsUnder_append,
    blobsUnder_memberFields, List.append_nil, hset, hrecords]

/-- Which blobs a built document has under the name of an index field: an ordinal set if categories
go there, and then one of records if associations go there.  So every field has at most one blob
exactly if no category and no association go to the same field. -/
theorem blobsAt_of_build (hbuild : ix.build t s d = (.ok b, ix', s')) :
    (∀ field, ∃ set? records? : Option Bytes,
      b.added.blobsAt field = set?.toList ++ records?.toList ∧
      (set?.isSome ↔ ∃ l ∈ d.categories, ix.settings.fieldOf l = field) ∧
      (records?.isSome ↔ ∃ a ∈ d.associations, ix.settings.fieldOf a.1 = field) ∧
      (∀ blob ∈ set?, OrdinalSet.IsBlob blob) ∧
      ∀ blob ∈ records?, Association.IsBlob
        (d.associations.filter fun a => ix.settings.fieldOf a.1 = field) blob) ∧
    ((∀ field, (b.added.blobsAt field).length ≤ 1) ↔
      ∀ l ∈ d.categories, ∀ a ∈ d.associations,
        ix.settings.fieldOf l ≠ ix.settings.fieldOf a.1) := by
  have hone : ∀ field, (b.added.blobsAt field).length ≤ 1 ↔
      ¬ ((∃ l ∈ d.categories, ix.settings.fieldOf l = field) ∧
        ∃ a ∈ d.associations, ix.settings.fieldOf a.1 = field) := by
    intro field
    obtain ⟨set?, records?, hblobs, hset, hrecords, _⟩ := Indexer.exists_blobs_of_build hbuild field
    rw [hblobs, length_toList_append_le_one_iff, hset, hrecords]
  refine ⟨Indexer.exists_blobs_of_build hbuild, ?_⟩
  simp only [hone]
  constructor
  · intro h l hl a ha hsame
    exact h _ ⟨⟨l, hl, rfl⟩, a, ha, hsame.symm⟩
  · rintro h field ⟨⟨l, hl, rfl⟩, a, ha, hsame⟩
    exact h l hl a ha hsame.symm

/-- A document about lakes, with a number of stars. -/
def starredDocument : Document where
  indexable := [
    .facet (.category ⟨"Subject", ["Lakes"], by decide, by decide⟩ (by decide)),
    .facet (.association ⟨"Rating", ["stars"], by decide, by decide⟩ (.int 4) (by decide))]

/-- Ratings have an index field of their own. -/
def ratingStore : Dimension.Store :=
  Dimension.Store.change {} "Rating" (.all ⟨false, false, false, "ratings"⟩)

theorem blobsAt_of_build_ratingStore :
    ∃ b ix' m',
      Indexer.build ⟨ratingStore, ∅⟩ Memory.taxonomy {} starredDocument = (.ok b, ix', m') ∧
      ∀ field, (b.added.blobsAt field).length ≤ 1 := by
  obtain ⟨_, hbuild⟩ := Indexer.exists_build_memory ⟨ratingStore, ∅⟩ {} starredDocument ⟨_, rfl⟩
    (by decide +kernel)
  refine ⟨_, _, _, hbuild, (blobsAt_of_build hbuild).2.2 ?_⟩
  decide +kernel

/-- Nothing is said about the dimensions, so that both facets go to the same field: there a set
that holds the ordinal 2 stands before a record of the value 4 for the ordinal 4. -/
theorem blobsAt_of_build_sharedField :
    ∃ b ix' m', Indexer.build {} Memory.taxonomy {} starredDocument = (.ok b, ix', m') ∧
      b.added.blobsAt "$facets" = [[2], [0, 0, 0, 4, 0, 0, 0, 4]] := by
  let m : Memory := Memory.addAll {} (Dimension.Store.asked {} starredDocument)
  obtain ⟨_, hbuild⟩ := Indexer.exists_build_memory {} {} starredDocument ⟨_, rfl⟩
    (by decide +kernel)
  have hordinals :
      (Dimension.Store.counted {} starredDocument.categories).map m.ordinalOf = [2] := by
    decide +kernel
  have hset : m.categoryBlob {} starredDocument.categories = [2] := by
    rw [Memory.categoryBlob, hordinals]
    cbv
  have hrecords : m.associationBlob starredDocument.associations = [0, 0, 0, 4, 0, 0, 0, 4] := by
    decide +kernel
  refine ⟨_, _, _, hbuild, ?_⟩
  -- Both dimensions have the default settings, so that each kind of facet makes one group.
  change [m.categoryBlob {} starredDocument.categories,
    m.associationBlob starredDocument.associations] = _
  rw [hset, hrecords]

end FacetIndex
