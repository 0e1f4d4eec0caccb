/-
  Proofs/DrillDown.lean --- what a search finds.

  WHAT THIS FILE IS FOR.  The term that a search asks for and the terms that a
  document is indexed under are made from the same settings and the same stored
  form of paths.  So a search should find a category at or below the one that it
  asks for, and nothing else.

  WHAT IS PROVED.

      Label.count_ladder     the terms of a label are those of its ancestors,
                             each of them once
      count_drillDown        in a built document without members the term of a
                             search stands as often as the document has a category
                             that is the one searched for or lies below it

  The heart is that stored forms of different paths differ (`Path.encode_injective`
  of `Proofs/Path.lean`), even where a component holds a delimiter.

  WHAT IS NOT SAID.  Members are left out here.  They are indexed in another way,
  and what a search finds of them is in `Proofs/MemberDrillDown.lean`.
-/
import FacetIndex.Proofs.Path
import FacetIndex.Proofs.Resolution
import FacetIndex.Proofs.Routing

set_option autoImplicit false

namespace FacetIndex

namespace Label

theorem take_components_ne_nil (l : Label) (n : Nat) : l.components.take (n + 1) ≠ [] :=
  List.cons_ne_nil _ _

/-- The terms of a label are the stored forms of what its components start with. -/
theorem encode_mem_ladder_iff {l : Label} {p : List String} (hp : p ≠ []) :
    Path.encode p ∈ l.ladder ↔ p <+: l.components := by
  rw [ladder, List.mem_map]
  constructor
  · rintro ⟨n, _, hn⟩
    rw [← Path.encode_injective (l.take_components_ne_nil n) hp hn]
    exact List.take_prefix _ _
  · intro h
    have hpos := List.length_pos_iff.2 hp
    have hle := h.length_le
    refine ⟨p.length - 1, List.mem_range.2 ?_, ?_⟩
    · rw [length]
      omega
    · rw [Nat.sub_add_cancel hpos, ← List.prefix_iff_eq_take.1 h]

/-- The terms of a label differ from each other. -/
theorem nodup_ladder (l : Label) : l.ladder.Nodup := by
  refine List.pairwise_map.2 (List.nodup_range.imp_of_mem fun {m n} hm hn hne heq => hne ?_)
  have htake := Path.encode_injective (l.take_components_ne_nil m) (l.take_components_ne_nil n) heq
  have hlength := congrArg List.length htake
  rw [List.mem_range, length] at hm hn
  rw [List.length_take, List.length_take] at hlength
  omega

theorem count_ladder (l : Label) {p : List String} (hp : p ≠ []) :
    l.ladder.count (Path.encode p) = if p <+: l.components then 1 else 0 := by
  rw [l.nodup_ladder.count]
  simp only [encode_mem_ladder_iff hp]

end Label

theorem name_of_mem_categoryTerms {field : String} {labels : List Label} {term : TextField}
    (h : term ∈ categoryTerms field labels) : term.name = field := by
  obtain ⟨l, _, hterm⟩ := List.mem_flatMap.1 h
  obtain ⟨text, _, rfl⟩ := List.mem_map.1 hterm
  rfl

/-- A term occurs once for each label that starts with its path. -/
theorem count_categoryTerms (field : String) (labels : List Label) {p : List String}
    (hp : p ≠ []) :
    (categoryTerms field labels).count ⟨field, Path.encode p⟩ =
      labels.countP (p <+: ·.components) := by
  induction labels with
  | nil => rfl
  | cons l ls ih =>
    have hone : (l.ladder.map fun term => TextField.mk field term).count ⟨field, Path.encode p⟩ =
        l.ladder.count (Path.encode p) := by
      rw [List.count, List.countP_map, List.count]
      exact List.countP_congr fun term _ => by simp
    rw [categoryTerms, List.flatMap_cons, List.count_append, ← categoryTerms, ih, hone,
      l.count_ladder hp, List.countP_cons, Nat.add_comm]
    simp only [decide_eq_true_eq]

namespace Dimension.Store

theorem terms_of_members_nil {store : Store} {d : Document} (h : d.members = []) :
    store.terms d =
      (store.routeCategories d).flatMap fun group => categoryTerms group.1 group.2 := by
  rw [terms, routeMembers, h]
  exact List.append_nil _

/-- The terms under the name of a field are those of the categories that go there. -/
theorem filter_terms {store : Store} {d : Document} (h : d.members = []) (field : String) :
    (store.terms d).filter (·.name = field) =
      categoryTerms field (d.categories.filter (store.fieldOf · = field)) := by
  rw [terms_of_members_nil h]
  exact Routing.filter_flatMap_byField TextField.name categoryTerms
    (fun name labels term hterm => name_of_mem_categoryTerms hterm) (fun name => rfl)
    store.fieldOf d.categories field

/-- A label that starts with a dimension is on this dimension. -/
theorem fieldOf_of_prefix {store : Store} {dimension : String} {path : List String} {l : Label}
    (h : dimension :: path <+: l.components) :
    store.fieldOf l = (store.get dimension).indexField := by
  have hdimension : dimension = l.dimension := (List.cons_prefix_cons.1 h).1
  rw [fieldOf, hdimension]

end Dimension.Store

variable {σ : Type}

/-- The term of a category is found in its field once for each category of the document that is the
one searched for or lies below it.  So it is found exactly if there is such a category. -/
theorem count_drillDown {t : Taxonomy σ} {ix ix' : Indexer} {s s' : σ} {d : Document} {b : Built}
    (hbuild : ix.build t s d = (.ok b, ix', s')) (hmembers : d.members = [])
    (dimension : String) (path : List String) :
    let query := ix.settings.drillDown dimension path
    b.added.terms.count ⟨query.field, query.term⟩ =
        d.categories.countP (dimension :: path <+: ·.components) ∧
      (⟨query.field, query.term⟩ ∈ b.added.terms ↔
        ∃ l ∈ d.categories, dimension :: path <+: l.components) := by
  obtain ⟨kinds, memo, _, hresolve, _, _⟩ := Indexer.build_eq_ok hbuild
  obtain ⟨categoryBlobs, associationBlobs, hadded, _⟩ :=
    Taxonomy.exists_addition_of_resolve hresolve
  have hterms : b.added.terms = ix.settings.terms d := by
    rw [hadded]
    rfl
  have hne : dimension :: path ≠ [] := List.cons_ne_nil _ _
  intro query
  have hcount : b.added.terms.count ⟨query.field, query.term⟩ =
      d.categories.countP (dimension :: path <+: ·.components) := by
    calc b.added.terms.count ⟨query.field, query.term⟩
        = ((ix.settings.terms d).filter (·.name = query.field)).count
            ⟨query.field, query.term⟩ := by
          rw [hterms, List.count_filter (by simp)]
      _ = (d.categories.filter (ix.settings.fieldOf · = query.field)).countP
            (dimension :: path <+: ·.components) := by
          rw [Dimension.Store.filter_terms hmembers]
          exact count_categoryTerms query.field _ hne
      _ = d.categories.countP (dimension :: path <+: ·.components) := by
          rw [List.countP_filter]
          refine List.countP_congr fun l _ => ?_
          rw [Bool.and_eq_true, decide_eq_true_eq, decide_eq_true_eq, and_iff_left_iff_imp]
          exact Dimension.Store.fieldOf_of_prefix
  refine ⟨hcount, ?_⟩
  rw [← List.count_pos_iff, hcount, List.countP_pos_iff]
  simp only [decide_eq_true_eq]

/-- Folders form a hierarchy, and a document may be in several. -/
def folderStore : Dimension.Store :=
  Dimension.Store.change {} "Folder" (.all ⟨true, true, false, "folders"⟩)

/-- A document in a folder whose name holds the delimiter, and in one below another folder. -/
def delimitedDocument : Document where
  indexable := [
    .facet (.category ⟨"Folder", ["a\x1fb"], by decide, by decide⟩ (by decide)),
    .facet (.category ⟨"Folder", ["a", "b"], by decide, by decide⟩ (by decide))]

/-- The delimiter in a name is not taken for a step down. -/
theorem count_drillDown_delimiter :
    ∃ (b : Built) (ix' : Indexer) (m' : Memory),
      Indexer.build ⟨folderStore, ∅⟩ Memory.taxonomy {} delimitedDocument = (.ok b, ix', m') ∧
      delimitedDocument.members = [] ∧
      b.added.terms.count ⟨"folders", Path.encode ["Folder", "a\x1fb"]⟩ = 1 ∧
      b.added.terms.count ⟨"folders", Path.encode ["Folder", "a"]⟩ = 1 := by
  obtain ⟨_, hbuild⟩ := Indexer.exists_build_memory ⟨folderStore, ∅⟩ {} delimitedDocument ⟨_, rfl⟩
    (by decide +kernel)
  have hmembers : delimitedDocument.members = [] := rfl
  have hfield : (folderStore.get "Folder").indexField = "folders" := by decide +kernel
  refine ⟨_, _, _, hbuild, hmembers, ?_, ?_⟩
  · have hcount := (count_drillDown hbuild hmembers "Folder" ["a\x1fb"]).1
    rw [Dimension.Store.drillDown, hfield] at hcount
    exact hcount.trans (by decide +kernel)
  · have hcount := (count_drillDown hbuild hmembers "Folder" ["a"]).1
    rw [Dimension.Store.drillDown, hfield] at hcount
    exact hcount.trans (by decide +kernel)

end FacetIndex
