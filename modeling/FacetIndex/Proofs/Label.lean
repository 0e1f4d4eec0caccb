/-
  Proofs/Label.lean --- ancestors of a label.

  WHAT THIS FILE IS FOR.  The ancestors of a label are its cuts: `l.cut n` keeps the
  dimension and `n` components below it.  A label is its own longest cut, and the
  dimension alone is the shortest one.

  WHAT IS PROVED.

      Label.ancestor?_eq_some_iff   the ancestors are the cuts
      Label.parent?_of_path_succ    the parent is the cut by one component
      Label.mem_counted             which labels are counted for a category, under
                                    the settings of its dimension

  The file also has the words in which later files speak of settings:
  `Label.counted`, `Dimension.Settings.kept`, `Dimension.Store.counted` for all the
  categories of a field, and `Dimension.Store.asked` for the labels that a document
  asks for.

  WHAT IS NOT SAID.  There are no ordinals here, and no taxonomy.
-/
import Mathlib
import FacetIndex.Routing

set_option autoImplicit false

namespace FacetIndex.Label

theorem take_path_ne (l : Label) (n : Nat) : ∀ c ∈ l.path.take n, c ≠ "" := fun c h =>
  l.path_ne c (List.mem_of_mem_take h)

/-- The dimension and the first `n` components below it. -/
def cut (l : Label) (n : Nat) : Label :=
  ⟨l.dimension, l.path.take n, l.dimension_ne, l.take_path_ne n⟩

@[simp] theorem path_cut (l : Label) (n : Nat) : (l.cut n).path = l.path.take n := rfl

theorem ext_path {a b : Label} (hd : a.dimension = b.dimension) (hp : a.path = b.path) : a = b :=
  components_injective (by rw [components, components, hd, hp])

theorem cut_of_length_le {l : Label} {n : Nat} (h : l.path.length ≤ n) : l.cut n = l :=
  ext_path rfl (List.take_of_length_le h)

theorem cut_cut (l : Label) (m n : Nat) : (l.cut n).cut m = l.cut (min m n) :=
  ext_path rfl (by rw [path_cut, path_cut, path_cut, List.take_take])

/-- The ancestors of a label, itself included, are its cuts. -/
theorem ancestor?_eq_some_iff {l a : Label} {len : Nat} :
    l.ancestor? len = some a ↔ ∃ n, len = n + 1 ∧ n ≤ l.path.length ∧ l.cut n = a := by
  cases len with
  | zero => simp [ancestor?]
  | succ n =>
    simp only [ancestor?, Option.ite_none_right_eq_some, Option.some.injEq, cut]
    constructor
    · rintro ⟨hle, h⟩
      exact ⟨n, rfl, hle, h⟩
    · rintro ⟨n', hn, hle, h⟩
      cases Nat.succ.inj hn
      exact ⟨hle, h⟩

theorem length_eq (l : Label) : l.length = l.path.length + 1 := rfl

theorem parent?_of_path_nil {l : Label} (h : l.path.length = 0) : l.parent? = none := by
  rw [parent?, length_eq, h]
  rfl

/-- The parent of a label with a path is its cut by one component. -/
theorem parent?_of_path_succ {l : Label} {n : Nat} (h : l.path.length = n + 1) :
    l.parent? = some (l.cut n) := by
  rw [parent?, length_eq, h]
  exact ancestor?_eq_some_iff.2 ⟨n, rfl, by omega, rfl⟩

/-! ## Counted labels -/

/-- The ancestors of a label that are not the label itself, the nearest first. -/
def above (l : Label) : List Label := (List.range l.path.length).reverse.map l.cut

/-- The labels that are counted for a category: the category, and those of its ancestors that are
stored with it. -/
def counted (settings : Dimension.Settings) (l : Label) : List Label :=
  l ::
    if settings.storesAncestors then
      if settings.requireCount then l.above else l.above.dropLast
    else []

theorem mem_above {l a : Label} : a ∈ l.above ↔ ∃ n, n < l.path.length ∧ l.cut n = a := by
  simp only [above, List.mem_map, List.mem_reverse, List.mem_range]

/-- Without the last one, the ancestors reach below the dimension. -/
theorem mem_dropLast_above {l a : Label} :
    a ∈ l.above.dropLast ↔ ∃ n, 0 < n ∧ n < l.path.length ∧ l.cut n = a := by
  simp only [above, ← List.map_dropLast, List.dropLast_reverse, List.mem_map, List.mem_reverse,
    List.tail_range, List.mem_range'_1]
  constructor
  · rintro ⟨n, ⟨hpos, hn⟩, h⟩
    exact ⟨n, hpos, by omega, h⟩
  · rintro ⟨n, hpos, hn, h⟩
    exact ⟨n, ⟨hpos, by omega⟩, h⟩

/-- Which labels are counted for a category. -/
theorem mem_counted {settings : Dimension.Settings} {l a : Label} :
    a ∈ l.counted settings ↔
      a = l ∨ settings.storesAncestors = true ∧
        ∃ n, n < l.path.length ∧ (0 < n ∨ settings.requireCount = true) ∧ l.cut n = a := by
  rw [counted, List.mem_cons]
  refine or_congr Iff.rfl ?_
  cases settings.storesAncestors with
  | false => simp
  | true =>
    cases settings.requireCount with
    | false =>
      simp only [if_true, Bool.false_eq_true, if_false, mem_dropLast_above, or_false, true_and]
      exact exists_congr fun n => and_left_comm
    | true => simp only [if_true, mem_above, or_true, true_and]

theorem eq_cut_of_mem_counted {settings : Dimension.Settings} {l a : Label}
    (h : a ∈ l.counted settings) : ∃ n, n ≤ l.path.length ∧ l.cut n = a := by
  rcases mem_counted.1 h with rfl | ⟨_, n, hn, _, hcut⟩
  · exact ⟨a.path.length, Nat.le_refl _, cut_of_length_le (Nat.le_refl _)⟩
  · exact ⟨n, Nat.le_of_lt hn, hcut⟩

end FacetIndex.Label

namespace FacetIndex.Dimension.Settings

/-- Of what is above a category, the nearest first, the part that is stored with it. -/
def kept {α : Type} (s : Settings) (above : List α) : List α :=
  if s.storesAncestors then if s.requireCount then above else above.dropLast else []

theorem map_kept {α β : Type} (s : Settings) (f : α → β)
    (above : List α) : (s.kept above).map f = s.kept (above.map f) := by
  unfold kept
  split
  · split
    · rfl
    · exact List.map_dropLast
  · rfl

end FacetIndex.Dimension.Settings

namespace FacetIndex.Dimension.Store

/-- The labels that are counted for some categories. -/
def counted (store : Store) (labels : List Label) : List Label :=
  labels.flatMap fun l => l.counted (store.get l.dimension)

/-- The labels that a document asks for, in the order in which it asks. -/
def asked (store : Store) (d : Document) : List Label :=
  ((store.routeCategories d).flatMap fun group => group.2)
    ++ (store.routeAssociations d).flatMap fun group => group.2.map (·.1)

end FacetIndex.Dimension.Store
