/-
  Proofs/Counting.lean --- what is counted in an index field.

  WHAT THIS FILE IS FOR.  The blob of the categories that go to an index field is
  a set of ordinals.  `Dimension.Store.Counts` says of labels which of them are to
  be counted there, with no regard to ordinals, to the order of the document or to
  what the taxonomy held before: the categories of the document that go there, and
  those of their ancestors that the settings ask for.

  THE MAIN THEOREM.  `categoryBlob_counts_exactly`: over a taxonomy in memory that
  has ordinals for all its categories, the blob can be read, and its ordinals are
  those of exactly the labels that count, each of them once.  The root is not among
  them, and a bare dimension only if that requires a count.

  HOW IT GOES.  `Proofs/Resolution.lean` gives the ordinals as those of a list of
  labels, and `Dimension.Store.mem_counted_iff_counts` says which labels these are.
  The rest is that reading a set gives the distinct ordinals in ascending order.

  WHAT IS NOT SAID.  Nothing about taxonomies that are too large; there two labels
  may have one ordinal, and `Proofs/Gathering.lean` says what is stored then.
-/
import FacetIndex.Proofs.Resolution
import FacetIndex.Proofs.Routing

set_option autoImplicit false

namespace FacetIndex

/-- The label counts in an index field: it is a category of the document that goes to the field, or
it is an ancestor of such a category and stored with it.  Of the ancestors the dimension itself is
stored only if it requires a count. -/
def Dimension.Store.Counts (store : Dimension.Store) (d : Document) (field : String) (l : Label) :
    Prop :=
  ∃ category ∈ d.categories, store.fieldOf category = field ∧
    let settings := store.get category.dimension
    (l = category ∨
      settings.multiValued = true ∧
        (settings.hierarchical = true ∨ settings.requireCount = true) ∧
        ∃ len, category.ancestor? len = some l ∧ len < category.length ∧
          (2 ≤ len ∨ settings.requireCount = true))

theorem Document.path_ne_of_mem_categories {d : Document} {l : Label} (h : l ∈ d.categories) :
    l.path ≠ [] := by
  obtain ⟨f, _, hf⟩ := List.mem_filterMap.1 h
  cases f with
  | category label path_ne =>
    cases hf
    exact path_ne
  | member dimension value dimension_ne value_ne => cases hf
  | association label value path_ne => cases hf

namespace Dimension

theorem Settings.storesAncestors_eq_true_iff (settings : Settings) :
    settings.storesAncestors = true ↔
      settings.multiValued = true ∧
        (settings.hierarchical = true ∨ settings.requireCount = true) := by
  simp only [storesAncestors, Bool.and_eq_true, Bool.or_eq_true]

/-- The counted labels of the categories of a field. -/
theorem Store.mem_counted_iff_counts {store : Store} {d : Document} {field : String} {l : Label} :
    l ∈ store.counted (d.categories.filter (store.fieldOf · = field)) ↔
      store.Counts d field l := by
  simp only [Store.counted, Store.Counts, List.mem_flatMap, List.mem_filter, decide_eq_true_eq,
    Label.mem_counted, Settings.storesAncestors_eq_true_iff, and_assoc]
  refine exists_congr fun category => and_congr Iff.rfl (and_congr Iff.rfl (or_congr Iff.rfl ?_))
  refine and_congr Iff.rfl (and_congr Iff.rfl ?_)
  constructor
  · rintro ⟨n, hn, hcount, hcut⟩
    refine ⟨n + 1, Label.ancestor?_eq_some_iff.2 ⟨n, rfl, Nat.le_of_lt hn, hcut⟩, ?_, ?_⟩
    · rw [Label.length_eq]
      omega
    · exact hcount.imp Nat.succ_le_succ id
  · rintro ⟨len, hancestor, hlen, hcount⟩
    obtain ⟨n, rfl, _, hcut⟩ := Label.ancestor?_eq_some_iff.1 hancestor
    rw [Label.length_eq] at hlen
    exact ⟨n, by omega, hcount.imp Nat.le_of_succ_le_succ id, hcut⟩

/-- A bare dimension counts only if it is to be counted. -/
theorem Store.Counts.requireCount_of_path_nil {store : Store} {d : Document} {field : String}
    {l : Label} (h : store.Counts d field l) (hpath : l.path = []) :
    (store.get l.dimension).requireCount = true := by
  obtain ⟨category, hmem, _, rfl | ⟨_, _, len, hancestor, hlen, hcount⟩⟩ := h
  · exact absurd hpath (Document.path_ne_of_mem_categories hmem)
  · obtain ⟨n, rfl, hn, rfl⟩ := Label.ancestor?_eq_some_iff.1 hancestor
    rcases hcount with htwo | hcount
    · have hlength := congrArg List.length hpath
      rw [Label.path_cut, List.length_take, List.length_nil] at hlength
      omega
    · exact hcount

end Dimension

namespace Memory

variable {m : Memory} {ls : List Label}

theorem exists_map_ordinalOf {os : List Ordinal} (h : ∀ o ∈ os, o ∈ ls.map m.ordinalOf) :
    ∃ labels : List Label, labels.map m.ordinalOf = os ∧ ∀ l ∈ labels, l ∈ ls := by
  induction os with
  | nil => exact ⟨[], rfl, fun l hl => absurd hl List.not_mem_nil⟩
  | cons o os ih =>
    obtain ⟨l, hl, ho⟩ := List.mem_map.1 (h o List.mem_cons_self)
    obtain ⟨labels, hmap, hmem⟩ := ih fun p hp => h p (List.mem_cons_of_mem o hp)
    refine ⟨l :: labels, by rw [List.map_cons, ho, hmap], fun k hk => ?_⟩
    rcases List.mem_cons.1 hk with rfl | hk
    · exact hl
    · exact hmem k hk

/-- The distinct ordinals of some categories are those of the categories, each once. -/
theorem exists_labels_distinct (hm : m.Fits) (hls : ∀ l ∈ ls, m.Has l) :
    ∃ labels : List Label,
      (OrdinalSet.distinct (ls.map m.ordinalOf)).map m.label? = labels.map some ∧
        labels.Nodup ∧ ∀ l, l ∈ labels ↔ l ∈ ls := by
  have hdistinct : ∀ o ∈ OrdinalSet.distinct (ls.map m.ordinalOf), o ∈ ls.map m.ordinalOf :=
    fun o ho => OrdinalSet.mem_distinct.1 ho
  obtain ⟨labels, hmap, hmem⟩ := exists_map_ordinalOf hdistinct
  refine ⟨labels, ?_, ?_, fun l => ⟨hmem l, fun hl => ?_⟩⟩
  · rw [← hmap, List.map_map]
    exact List.map_congr_left fun l hl => label?_ordinalOf hm (hls l (hmem l hl))
  · have hnodup := OrdinalSet.pairwise_distinct (ls.map m.ordinalOf)
    rw [← hmap] at hnodup
    refine List.Pairwise.of_map m.ordinalOf (fun a b hab heq => ?_) hnodup
    rw [heq] at hab
    exact Int32.lt_irrefl hab
  · have hordinal : m.ordinalOf l ∈ labels.map m.ordinalOf := by
      rw [hmap, OrdinalSet.mem_distinct]
      exact List.mem_map_of_mem hl
    obtain ⟨k, hk, heq⟩ := List.mem_map.1 hordinal
    have hlabel := label?_ordinalOf hm (hls k (hmem k hk))
    rw [heq, label?_ordinalOf hm (hls l hl)] at hlabel
    cases hlabel
    exact hk

/-- Under the name of a field with categories, the first value for counting is their blob. -/
theorem find?_counting_addition (m : Memory) (store : Dimension.Store) (d : Document)
    {field : String} (h : field ∈ d.categories.map store.fieldOf) :
    (m.addition store d).counting.find? (·.name = field) =
      some ⟨field, .binary
        (m.categoryBlob store (d.categories.filter (store.fieldOf · = field)))⟩ := by
  have hgroups := Routing.filter_flatMap_byField_of_mem CountingField.name
    (fun name labels => [⟨name, .binary (m.categoryBlob store labels)⟩])
    (fun name labels b hb => by rw [List.mem_singleton.1 hb]) h
  rw [← List.map_eq_flatMap] at hgroups
  rw [← List.head?_filter]
  simp only [addition, Dimension.Store.addition, List.append_assoc, List.filter_append]
  rw [Dimension.Store.routeCategories, hgroups]
  rfl

end Memory

/-- The blob of the categories of an index field can be read, and its ordinals are those of exactly
the labels that count in the field, each of them once.  It never has the root, and a bare dimension
only if that requires a count. -/
theorem categoryBlob_counts_exactly {ix ix' : Indexer} {m m' : Memory} {d : Document} {b : Built}
    (hbuild : ix.build Memory.taxonomy m d = (.ok b, ix', m')) (hsize : m'.size ≤ 2 ^ 31)
    {field : String} (hfield : ∃ category ∈ d.categories, ix.settings.fieldOf category = field) :
    ∃ (blob : Bytes) (ordinals : List Ordinal) (labels : List Label),
      b.added.counting.find? (·.name = field) = some ⟨field, .binary blob⟩ ∧
      OrdinalSet.decode blob = .ok ordinals ∧
      ordinals.map m'.label? = labels.map some ∧ labels.Nodup ∧
      (∀ l, l ∈ labels ↔ ix.settings.Counts d field l) ∧
      Ordinal.root ∉ ordinals ∧
      ∀ l ∈ labels, l.path = [] → (ix.settings.get l.dimension).requireCount = true := by
  have hfits : m'.Fits := by
    rw [Memory.size] at hsize
    rw [Memory.Fits, Ordinal.largest]
    omega
  obtain ⟨hm', hadded⟩ := Indexer.added_of_build_memory hbuild hfits
  have hfield' : field ∈ d.categories.map ix.settings.fieldOf := List.mem_map.2 hfield
  have hcounted : ∀ l ∈ ix.settings.counted
      (d.categories.filter (ix.settings.fieldOf · = field)), m'.Has l := by
    intro l hl
    refine Memory.has_of_mem_store_counted (fun category hcategory => ?_) hl
    rw [hm']
    refine Memory.has_addAll (List.mem_append_left _ (Routing.mem_flatMap_byField.2 ?_))
    exact (List.mem_filter.1 hcategory).1
  obtain ⟨labels, hlabels, hnodup, hmem⟩ := Memory.exists_labels_distinct hfits hcounted
  have hcounts : ∀ l, l ∈ labels ↔ ix.settings.Counts d field l := fun l =>
    (hmem l).trans Dimension.Store.mem_counted_iff_counts
  refine ⟨_, _, labels, ?_, OrdinalSet.decode_blob (Memory.ordinals_nonneg hfits hcounted), hlabels,
    hnodup, hcounts, ?_, fun l hl => ((hcounts l).1 hl).requireCount_of_path_nil⟩
  · rw [hadded]
    exact m'.find?_counting_addition ix.settings d hfield'
  · intro hroot
    -- The root is the ordinal of no label.
    have hnone : m'.label? Ordinal.root ∈ labels.map some := hlabels ▸ List.mem_map_of_mem hroot
    obtain ⟨l, _, hl⟩ := List.mem_map.1 hnone
    exact Option.some_ne_none l hl

/-- A place in the Alps. -/
def alpine (path : List String) (path_ne : ∀ c ∈ path, c ≠ "") : Label :=
  ⟨"Place", path, by decide, path_ne⟩

/-- Places form a hierarchy, a document may have several, and there is no count of all places. -/
def alpineStore : Dimension.Store :=
  Dimension.Store.change {} "Place" (.all ⟨true, true, false, "places"⟩)

/-- A document about two places with an ancestor in common. -/
def alpineDocument : Document where
  indexable := [
    .facet (.category (alpine ["Alps", "North"] (by decide)) (by decide)),
    .facet (.category (alpine ["Alps", "South"] (by decide)) (by decide))]

/-- The common ancestor is counted once, and the dimension is not counted. -/
theorem categoryBlob_counts_exactly_alpine :
    ∃ (b : Built) (ix' : Indexer) (m' : Memory) (blob : Bytes) (ordinals : List Ordinal)
      (labels : List Label),
      Indexer.build ⟨alpineStore, ∅⟩ Memory.taxonomy {} alpineDocument = (.ok b, ix', m') ∧
      m'.size ≤ 2 ^ 31 ∧
      b.added.counting.find? (·.name = "places") = some ⟨"places", .binary blob⟩ ∧
      OrdinalSet.decode blob = .ok ordinals ∧
      ordinals.map m'.label? = labels.map some ∧ labels.Nodup ∧
      alpine ["Alps"] (by decide) ∈ labels ∧ alpine [] (by decide) ∉ labels := by
  have hfits : (Memory.addAll {} (alpineStore.asked alpineDocument)).Fits := by decide +kernel
  obtain ⟨_, hbuild⟩ :=
    Indexer.exists_build_memory ⟨alpineStore, ∅⟩ {} alpineDocument ⟨_, rfl⟩ hfits
  have hsize := Memory.fits_iff_size_le.1 hfits
  have hfield : ∃ category ∈ alpineDocument.categories,
      alpineStore.fieldOf category = "places" :=
    ⟨alpine ["Alps", "North"] (by decide), List.mem_cons_self, by decide +kernel⟩
  obtain ⟨blob, ordinals, labels, hfind, hdecode, hlabels, hnodup, hmem, _, hdimension⟩ :=
    categoryBlob_counts_exactly hbuild hsize hfield
  refine ⟨_, _, _, blob, ordinals, labels, hbuild, hsize, hfind, hdecode, hlabels, hnodup, ?_, ?_⟩
  · refine (hmem _).2 ⟨alpine ["Alps", "North"] (by decide), List.mem_cons_self, ?_, Or.inr ?_⟩
    · decide +kernel
    · exact ⟨by decide +kernel, Or.inl (by decide +kernel), 2, rfl, by decide, Or.inl (by decide)⟩
  · intro h
    have := hdimension _ h rfl
    revert this
    decide +kernel

end FacetIndex
