/-
  Proofs/Growth.lean --- which categories there are.

  WHAT THIS FILE IS FOR.  Asking for a label adds the label and those of its
  ancestors that are new, and nothing else.  So which categories a taxonomy in
  memory has in the end depends on what was asked for, but not on the order in
  which it was.

  WHAT IS PROVED.

      Memory.has_add_iff, Memory.has_addAll_iff
          what there is after one label, and after several: what was there, and
          what these labels start with
      Memory.has_addAll_congr
          the same labels in another order lead to the same categories
      Memory.size_labels_eq
          taxonomies with the same categories have the same size

  WHAT IS NOT SAID.  The numbers of the categories do depend on the order.
  `Proofs/Renumbering.lean` goes from one numbering to another.
-/
import FacetIndex.Proofs.Counting

set_option autoImplicit false

namespace FacetIndex

namespace Memory

theorem has_iff_mem {m : Memory} {l : Label} : m.Has l ↔ l ∈ m.labels := Array.mem_iff_getElem?.symm

theorem has_placeBelow_iff {m : Memory} {l k : Label} (parent : Ordinal)
    (known : ∀ p, l.parent? = some p → m.Has p) (above : parent = ordinalAbove m.index l) :
    (m.placeBelow l parent known above).1.2.Has k ↔ m.Has k ∨ k = l := by
  unfold placeBelow
  split
  · rename_i i hi
    have hl : m.Has l := ⟨i, (m.index_iff l i).1 hi⟩
    constructor
    · exact Or.inl
    · intro h
      rcases h with h | rfl
      · exact h
      · exact hl
  · exact has_iff_mem.trans (Array.mem_push.trans (or_congr has_iff_mem.symm Iff.rfl))

/-- Asking for a label adds its ancestors and itself. -/
theorem has_add_iff (m : Memory) (l k : Label) :
    (m.add l).Has k ↔ m.Has k ∨ ∃ n, l.cut n = k := by
  unfold add
  fun_induction place m l with
  | case1 l i hi =>
    have hl : m.Has l := ⟨i, (m.index_iff l i).1 hi⟩
    constructor
    · exact Or.inl
    · intro h
      obtain h | ⟨n, rfl⟩ := h
      · exact h
      · exact hl.cut n
  | case2 l hi hp =>
    have hpath : l.path.length = 0 := by
      cases hlength : l.path.length with
      | zero => rfl
      | succ n => cases hp.symm.trans (Label.parent?_of_path_succ hlength)
    rw [has_placeBelow_iff]
    refine or_congr Iff.rfl ⟨fun h => ⟨0, ?_⟩, fun h => ?_⟩
    · rw [h, Label.cut_of_length_le (by omega)]
    · obtain ⟨n, rfl⟩ := h
      exact Label.cut_of_length_le (by omega)
  | case3 l hi p hp r =>
    rename_i ih
    rw [has_placeBelow_iff, ih, or_assoc]
    refine or_congr Iff.rfl ?_
    -- The label has a component more than its parent, and all shorter labels are the parent's.
    cases hlength : l.path.length with
    | zero => cases hp.symm.trans (Label.parent?_of_path_nil hlength)
    | succ len =>
      have hcut : l.cut len = p := by
        rw [Label.parent?_of_path_succ hlength] at hp
        exact Option.some.inj hp
      constructor
      · intro h
        obtain ⟨n, rfl⟩ | rfl := h
        · exact ⟨min n len, by rw [← hcut, Label.cut_cut]⟩
        · exact ⟨len + 1, Label.cut_of_length_le (by omega)⟩
      · intro h
        obtain ⟨n, rfl⟩ := h
        by_cases hn : n ≤ len
        · exact Or.inl ⟨n, by rw [← hcut, Label.cut_cut, Nat.min_eq_left hn]⟩
        · exact Or.inr (Label.cut_of_length_le (by omega))

theorem has_addAll_iff (m : Memory) (ls : List Label) (k : Label) :
    (m.addAll ls).Has k ↔ m.Has k ∨ ∃ l ∈ ls, ∃ n, l.cut n = k := by
  induction ls generalizing m with
  | nil => simp [addAll]
  | cons l ls ih =>
    change ((m.add l).addAll ls).Has k ↔ _
    rw [ih, has_add_iff, or_assoc, List.exists_mem_cons_iff]

/-- Asking for the same labels in another order adds the same categories. -/
theorem has_addAll_congr {m : Memory} {ls ls' : List Label} (h : ∀ l, l ∈ ls ↔ l ∈ ls')
    (k : Label) : (m.addAll ls).Has k ↔ (m.addAll ls').Has k := by
  rw [has_addAll_iff, has_addAll_iff]
  simp only [h]

/-- No category is there twice. -/
theorem nodup_labels (m : Memory) : m.labels.toList.Nodup := by
  rw [List.nodup_iff_getElem?_ne_getElem?]
  intro i j hij hj hsame
  rw [Array.getElem?_toList, Array.getElem?_toList] at hsame
  rw [Array.length_toList] at hj
  obtain ⟨l, hl⟩ := exists_getElem? hj
  have hi := (m.index_iff l i).2 (hsame.trans hl)
  rw [(m.index_iff l j).2 hl] at hi
  cases hi
  exact Nat.lt_irrefl _ hij

/-- Taxonomies with the same categories have the same number of them. -/
theorem size_labels_eq {m m' : Memory} (h : ∀ l, m.Has l ↔ m'.Has l) :
    m.labels.size = m'.labels.size := by
  have hperm : m.labels.toList.Perm m'.labels.toList := by
    rw [List.perm_ext_iff_of_nodup m.nodup_labels m'.nodup_labels]
    intro l
    rw [Array.mem_toList_iff, Array.mem_toList_iff, ← has_iff_mem, ← has_iff_mem, h]
  exact hperm.length_eq

end Memory

/-- A document asks for the labels of its categories and of its associations. -/
theorem Dimension.Store.mem_asked {store : Store} {d : Document} {l : Label} :
    l ∈ store.asked d ↔ l ∈ d.categories ∨ l ∈ d.associations.map (·.1) := by
  unfold asked
  rw [List.mem_append, Dimension.Store.routeCategories, Routing.mem_flatMap_byField]
  refine or_congr Iff.rfl ?_
  rw [← List.map_flatMap, List.mem_map, List.mem_map]
  simp only [Dimension.Store.routeAssociations, Routing.mem_flatMap_byField]

end FacetIndex
