/-
  Proofs/Gathering.lean --- the ordinals of an index field, in a taxonomy of any
  size.

  WHAT THIS FILE IS FOR.  What stands for a category in the blob of its index field
  is its ordinal and a part of the ordinals met on the way from there to the root
  (`Memory.ordinalsFor`).  They are read off the taxonomy in the end, and nothing is
  said about its size: it may have more categories than there are ordinals.

  WHAT IS PROVED.

      Memory.from_ancestors_eq_climb
          the search for ancestors comes to its end and finds what is met on the
          way up, since a parent that is no root has a smaller ordinal
      Memory.ordinalsFor_of_fits
          as long as every category has an ordinal of its own, these are the
          ordinals of the labels that are counted for the category
      Memory.exists_sets_of_resolve
          the sets of a resolved document, read off the taxonomy in the end
      Indexer.exists_set_of_build
          what is read from the blob of an index field of a built document

  WHAT IS NOT SAID.  Which labels are to be counted: `Proofs/Counting.lean`.
-/
import FacetIndex.Proofs.AssociationRecords
import FacetIndex.Proofs.Counting
import FacetIndex.Proofs.Numbering
import FacetIndex.Proofs.OrdinalWords

set_option autoImplicit false

namespace FacetIndex

namespace Memory

/-! ## One category -/

/-- Whatever ordinal it is, a parent that is no root has a smaller one. -/
theorem parentOf_lt_of_pos {m : Memory} {o : Ordinal} (h : 0 < m.parentOf o) :
    (m.parentOf o).toNatClampNeg < o.toNatClampNeg := by
  cases hl : m.label? o with
  | none =>
    rw [parentOf_of_label?_eq_none hl] at h
    cases h
  | some l =>
    rw [parentOf_of_label? hl] at h ⊢
    cases hp : l.parent? with
    | none =>
      simp only [ordinalAbove, hp] at h
      cases h
    | some p =>
      unfold label? at hl
      split at hl
      · rename_i ho
        obtain ⟨j, hj, hplace⟩ := m.parent_before _ l p hl hp
        rw [ordinalAbove_of_getElem? hp ((m.index_iff p j).2 hplace)]
        have hle := toNatClampNeg_ordinalAt_le j
        omega
      · cases hl

/-- The ordinals met on the way from an ordinal to the root, the nearest first. -/
def climb (m : Memory) (o : Ordinal) : List Ordinal :=
  if 0 < m.parentOf o then m.parentOf o :: m.climb (m.parentOf o) else []
termination_by o.toNatClampNeg
decreasing_by exact parentOf_lt_of_pos ‹_›

/-- The search for ancestors comes to its end, and finds what is met on the way. -/
theorem from_ancestors_eq_climb (m : Memory) (steps : Nat) :
    ∀ {o : Ordinal}, o.toNatClampNeg < steps →
      (taxonomy.ancestors steps o).from m = (.ok (m.climb o), m) := by
  induction steps with
  | zero => exact fun hsteps => absurd hsteps (Nat.not_lt_zero _)
  | succ steps ih =>
    intro o hsteps
    rw [Taxonomy.ancestors, Ask.from_bind_of_ok (from_parentOf m o), climb]
    by_cases hparent : 0 < m.parentOf o
    · have hlt := parentOf_lt_of_pos hparent
      rw [if_pos hparent, if_pos hparent, Ask.from_bind_of_ok (ih (by omega))]
      rfl
    · rw [if_neg hparent, if_neg hparent]
      rfl

theorem toNatClampNeg_lt_ancestorSteps (o : Ordinal) :
    o.toNatClampNeg < Taxonomy.ancestorSteps := by
  have hlt := Int32.toInt_lt o
  rw [Taxonomy.ancestorSteps, Ordinal.largest, Int32.toNatClampNeg]
  omega

/-- What is met is found by going up a number of times. -/
theorem exists_iterate_of_mem_climb {m : Memory} {o p : Ordinal} (h : p ∈ m.climb o) :
    0 < p ∧ ∃ k, m.parentOf^[k + 1] o = p := by
  fun_induction climb m o with
  | case1 o hparent ih =>
    rcases List.mem_cons.1 h with rfl | h
    · exact ⟨hparent, 0, rfl⟩
    · obtain ⟨hpos, k, hk⟩ := ih h
      exact ⟨hpos, k + 1, hk⟩
  | case2 o hparent => cases h

/-- What is above a known ordinal stays. -/
theorem climb_of_extends {m m' : Memory} (hle : m.Extends m') {o : Ordinal} (ho : m.Known o) :
    m'.climb o = m.climb o := by
  fun_induction climb m o with
  | case1 o hparent ih =>
    rw [climb, hle.parentOf_eq ho, if_pos hparent, ih (m.known_parentOf o)]
  | case2 o hparent => rw [climb, hle.parentOf_eq ho, if_neg hparent]

/-- The ordinals that stand for a category: its own, and those above it that are stored with it. -/
def ordinalsFor (m : Memory) (settings : Dimension.Settings) (l : Label) : List Ordinal :=
  m.ordinalOf l :: settings.kept (m.climb (m.ordinalOf l))

theorem from_ordinalsOf (m : Memory) (settings : Dimension.Settings) (l : Label) :
    (taxonomy.ordinalsOf settings l).from m =
      (.ok ((m.add l).ordinalsFor settings l), m.add l) := by
  have hclimb := from_ancestors_eq_climb (m.add l) _
    (toNatClampNeg_lt_ancestorSteps ((m.add l).ordinalOf l))
  rw [Taxonomy.ordinalsOf, Ask.from_bind_of_ok (from_addCategory m l), ordinalsFor,
    Dimension.Settings.kept]
  split
  · rw [Ask.from_bind_of_ok hclimb]
    rfl
  · rfl

theorem Has.known {m : Memory} {l : Label} (h : m.Has l) : m.Known (m.ordinalOf l) := by
  obtain ⟨i, hi⟩ := h
  rw [ordinalOf_of_getElem? hi]
  exact known_ordinalAt hi

theorem ordinalsFor_of_extends {m m' : Memory} {settings : Dimension.Settings} {l : Label}
    (hl : m.Has l) (hle : m.Extends m') :
    m'.ordinalsFor settings l = m.ordinalsFor settings l := by
  rw [ordinalsFor, ordinalsFor, hle.ordinalOf_eq hl, climb_of_extends hle hl.known]

/-- As long as all categories have ordinals of their own, these are the ordinals of the labels that
are counted for the category. -/
theorem ordinalsFor_of_fits {m : Memory} {l : Label} (hm : m.Fits) (hl : m.Has l)
    (settings : Dimension.Settings) :
    m.ordinalsFor settings l = (l.counted settings).map m.ordinalOf := by
  have hsteps : l.path.length < Taxonomy.ancestorSteps :=
    Nat.lt_succ_of_lt (path_length_lt_largest hm hl)
  have hclimb := from_ancestors_eq_climb m _ (toNatClampNeg_lt_ancestorSteps (m.ordinalOf l))
  rw [from_ancestors hm _ hl hsteps] at hclimb
  have habove : m.climb (m.ordinalOf l) = l.above.map m.ordinalOf :=
    (Except.ok.inj (Prod.mk.inj hclimb).1).symm
  rw [ordinalsFor, habove, ← Dimension.Settings.map_kept, Label.counted, List.map_cons]
  rfl

/-! ## One index field -/

/-- The ordinals that stand for some categories. -/
def gathered (m : Memory) (store : Dimension.Store) (labels : List Label) : List Ordinal :=
  labels.flatMap fun l => m.ordinalsFor (store.get l.dimension) l

theorem gathered_of_extends {m m' : Memory} {store : Dimension.Store} {labels : List Label}
    (h : ∀ l ∈ labels, m.Has l) (hle : m.Extends m') :
    m'.gathered store labels = m.gathered store labels :=
  List.flatMap_congr fun l hl => ordinalsFor_of_extends (h l hl) hle

theorem gathered_of_fits {m : Memory} {labels : List Label} (hm : m.Fits)
    (h : ∀ l ∈ labels, m.Has l) (store : Dimension.Store) :
    m.gathered store labels = (store.counted labels).map m.ordinalOf := by
  rw [gathered, Dimension.Store.counted, List.map_flatMap]
  exact List.flatMap_congr fun l hl => ordinalsFor_of_fits hm (h l hl) _

theorem mem_gathered_filter {m : Memory} {store : Dimension.Store} {labels : List Label}
    {field : String} {o : Ordinal} :
    o ∈ m.gathered store (labels.filter (store.fieldOf · = field)) ↔
      ∃ l ∈ labels, store.fieldOf l = field ∧ o ∈ m.ordinalsFor (store.get l.dimension) l := by
  simp only [gathered, List.mem_flatMap, List.mem_filter, decide_eq_true_eq, and_assoc]

theorem mem_gathered_iff_counts {m : Memory} {store : Dimension.Store} {d : Document}
    {field : String} (hm : m.Fits)
    (hhas : ∀ category ∈ d.categories, store.fieldOf category = field → m.Has category)
    {o : Ordinal} :
    o ∈ m.gathered store (d.categories.filter (store.fieldOf · = field)) ↔
      ∃ l, m.ordinal? l = some o ∧ store.Counts d field l := by
  have hlabels : ∀ l ∈ d.categories.filter (store.fieldOf · = field), m.Has l := by
    intro l hl
    obtain ⟨hcategory, hfield⟩ := List.mem_filter.1 hl
    exact hhas l hcategory (of_decide_eq_true hfield)
  rw [gathered_of_fits hm hlabels, List.mem_map]
  refine exists_congr fun l => ?_
  rw [Dimension.Store.mem_counted_iff_counts, ordinal?_eq_some_iff, and_comm]
  refine and_congr_left fun hcounts => ⟨fun ho => ⟨?_, ho⟩, And.right⟩
  exact has_of_mem_store_counted hlabels (Dimension.Store.mem_counted_iff_counts.2 hcounts)

/-- The blob of some categories, if there is one, is the set of the ordinals that stand for them in
the end. -/
theorem from_categoryBlob (m : Memory) (store : Dimension.Store) (labels : List Label) :
    (taxonomy.categoryBlob store labels).from m =
      (OrdinalSet.encode ((m.addAll labels).gathered store labels), m.addAll labels) := by
  have hall := from_mapM (fun l : Label => taxonomy.ordinalsOf (store.get l.dimension) l)
    (fun l => [l]) (fun l m => m.ordinalsFor (store.get l.dimension) l)
    (fun l m => m.from_ordinalsOf (store.get l.dimension) l)
    (fun l m m' hhas hle => ordinalsFor_of_extends (hhas l List.mem_cons_self) hle) labels m
  rw [List.flatMap_singleton'] at hall
  rw [Taxonomy.categoryBlob, Ask.from_bind_of_ok hall, gathered, List.flatMap_def]
  split
  · rename_i blob hblob
    rw [hblob]
    rfl
  · rename_i e he
    rw [he]
    rfl

/-! ## Documents -/

/-- Several computations in a row, each of which keeps what was there: what holds of their results
from then on holds of all of them in the end. -/
theorem forall₂_of_from_mapM {α β : Type} {f : α → Ask Memory β} (Gives : Memory → α → β → Prop)
    (hrun : ∀ {x m m' y}, (f x).from m = (.ok y, m') → m.Extends m' ∧ Gives m' x y)
    (hkept : ∀ {x y m m'}, Gives m x y → m.Extends m' → Gives m' x y) {xs : List α} {ys : List β}
    {m m' : Memory} (h : (xs.mapM f).from m = (.ok ys, m')) :
    m.Extends m' ∧ List.Forall₂ (Gives m') xs ys := by
  induction xs generalizing m ys with
  | nil =>
    cases h
    exact ⟨Extends.refl _, .nil⟩
  | cons x xs ih =>
    rw [List.mapM_cons] at h
    obtain ⟨y, m₁, hx, h⟩ := Ask.from_bind_eq_ok_iff.1 h
    obtain ⟨ys', m₂, hxs, h⟩ := Ask.from_bind_eq_ok_iff.1 h
    cases h
    obtain ⟨hle, hgives⟩ := hrun hx
    obtain ⟨hle', hall⟩ := ih hxs
    exact ⟨hle.trans hle', .cons (hkept hgives hle') hall⟩

/-- Asking for the blobs of associations keeps what was there. -/
theorem extends_of_associationBlobs {m m' : Memory}
    {groups : List (String × List (Label × Association.Value))} {records : List CountingField}
    (h : (Ask.blobs taxonomy.associationBlob groups).from m = (.ok records, m')) :
    m.Extends m' := by
  have hreads := Reads.mapM (fun group : String × List (Label × Association.Value) =>
    (reads_associationBlob group.2).map fun blob => CountingField.mk group.1 (.binary blob)) groups
  rw [hreads.adds h]
  exact m.extends_addAll _

/-- The blob is the set of the ordinals that stand for some known categories. -/
def IsSetOf (m : Memory) (store : Dimension.Store) (labels : List Label) (blob : Bytes) : Prop :=
  OrdinalSet.encode (m.gathered store labels) = .ok blob ∧ ∀ l ∈ labels, m.Has l

theorem IsSetOf.of_extends {m m' : Memory} {store : Dimension.Store} {labels : List Label}
    {blob : Bytes} (h : m.IsSetOf store labels blob) (hle : m.Extends m') :
    m'.IsSetOf store labels blob := by
  refine ⟨?_, fun l hl => (h.2 l hl).of_extends hle⟩
  rw [gathered_of_extends h.2 hle, h.1]

theorem isSetOf_of_categoryBlob {m m' : Memory} {store : Dimension.Store} {labels : List Label}
    {blob : Bytes} (h : (taxonomy.categoryBlob store labels).from m = (.ok blob, m')) :
    m.Extends m' ∧ m'.IsSetOf store labels blob := by
  obtain ⟨hencode, rfl⟩ := Prod.mk.inj ((from_categoryBlob m store labels).symm.trans h)
  exact ⟨m.extends_addAll labels, hencode, fun l hl => has_addAll hl⟩

/-- The sets of a resolved document come first, one for each index field with categories. -/
theorem exists_sets_of_resolve {m m' : Memory} {store : Dimension.Store} {d : Document}
    {added : Addition} (h : (taxonomy.resolve store d).from m = (.ok added, m')) :
    ∃ sets rest, added.counting = sets ++ rest ∧
      AreBlobs (m'.IsSetOf store) (store.routeCategories d) sets := by
  obtain ⟨sets, m₁, records, hsets, hrecords, rfl⟩ := Taxonomy.from_resolve_eq_ok_iff.1 h
  have hle := extends_of_associationBlobs hrecords
  obtain ⟨_, hall⟩ := forall₂_of_from_mapM
    (fun m group field => ∃ blob, field = ⟨group.1, .binary blob⟩ ∧ m.IsSetOf store group.2 blob)
    (fun {group m m' field} hrun => by
      obtain ⟨blob, m₁, hblob, hpure⟩ := Ask.from_bind_eq_ok_iff.1 hrun
      cases hpure
      obtain ⟨hgrown, hset⟩ := isSetOf_of_categoryBlob hblob
      exact ⟨hgrown, blob, rfl, hset⟩)
    (fun ⟨blob, hfield, hset⟩ hgrown => ⟨blob, hfield, hset.of_extends hgrown⟩) hsets
  exact ⟨sets, _, List.append_assoc _ _ _, hall.imp fun _ _ ⟨blob, hfield, hset⟩ =>
    ⟨blob, hfield, hset.of_extends hle⟩⟩

end Memory

/-- The first value for counting under the name of an index field with categories is their blob. -/
theorem AreBlobs.exists_find?_append {α : Type} {IsBlob : List α → Bytes → Prop}
    {groups : List (String × List α)} {sets : List CountingField} (h : AreBlobs IsBlob groups sets)
    (hnodup : (groups.map (·.1)).Nodup) (rest : List CountingField) {group : String × List α}
    (hgroup : group ∈ groups) :
    ∃ blob, (sets ++ rest).find? (·.name = group.1) = some ⟨group.1, .binary blob⟩ ∧
      IsBlob group.2 blob := by
  unfold AreBlobs at h
  induction h with
  | nil => cases hgroup
  | cons hone _ ih =>
    obtain ⟨blob, rfl, hblob⟩ := hone
    obtain ⟨hfresh, hnodup⟩ := List.nodup_cons.1 hnodup
    rcases List.mem_cons.1 hgroup with rfl | hgroup
    · exact ⟨blob, List.find?_cons_of_pos (decide_eq_true rfl), hblob⟩
    · obtain ⟨other, hfind, hother⟩ := ih hnodup hgroup
      refine ⟨other, ?_, hother⟩
      rw [List.cons_append, List.find?_cons_of_neg, hfind]
      rw [decide_eq_true_eq]
      exact fun hname => hfresh (List.mem_map.2 ⟨group, hgroup, hname.symm⟩)

/-- What is read from the first value for counting of an index field with categories: the ordinals
that stand for the categories of the field, without repeats and in ascending order. -/
theorem Indexer.exists_set_of_build {ix ix' : Indexer} {m m' : Memory} {d : Document} {b : Built}
    (hbuild : ix.build Memory.taxonomy m d = (.ok b, ix', m')) {field : String}
    (hfield : ∃ category ∈ d.categories, ix.settings.fieldOf category = field) :
    ∃ blob, b.added.counting.find? (·.name = field) = some ⟨field, .binary blob⟩ ∧
      OrdinalSet.decode blob = .ok (OrdinalSet.distinct
        (m'.gathered ix.settings (d.categories.filter (ix.settings.fieldOf · = field)))) ∧
      ∀ category ∈ d.categories, ix.settings.fieldOf category = field → m'.Has category := by
  obtain ⟨kinds, memo, _, hmemoised, _, _⟩ := build_eq_ok hbuild
  obtain ⟨sets, rest, hadded, hsets⟩ :=
    Memory.exists_sets_of_resolve (Memory.steady.from_resolve_of_memoised hmemoised)
  have hnodup : ((ix.settings.routeCategories d).map (·.1)).Nodup := by
    rw [Dimension.Store.routeCategories, Routing.map_fst_byField]
    exact Routing.nodup_names _
  have hgroup : (field, d.categories.filter (ix.settings.fieldOf · = field)) ∈
      ix.settings.routeCategories d := Routing.mem_byField.2 ⟨List.mem_map.2 hfield, rfl⟩
  obtain ⟨blob, hfind, hencode, hhas⟩ := hsets.exists_find?_append hnodup rest hgroup
  refine ⟨blob, by rw [hadded, hfind], ?_, fun category hcategory hroute => ?_⟩
  · exact OrdinalSet.decode_of_encode hencode
  · exact hhas category (List.mem_filter.2 ⟨hcategory, decide_eq_true hroute⟩)

end FacetIndex
