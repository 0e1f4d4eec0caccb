import FacetIndex.Dimension
import FacetIndex.Document

set_option autoImplicit false

/-!
# Routing

Every facet goes to the index field of its dimension.  What goes to one field is kept together in
the order of the document, and the fields are taken in ascending order of their names.
-/

namespace FacetIndex

namespace Routing

/-- Puts a name into an ascending list of distinct names. -/
def insertName (name : String) : List String → List String
  | [] => [name]
  | n :: ns =>
      if name < n then name :: n :: ns
      else if name = n then n :: ns
      else n :: insertName name ns

/-- The distinct names of a list, in ascending order. -/
def names (xs : List String) : List String := xs.foldr insertName []

theorem mem_insertName {name other : String} {ns : List String} :
    other ∈ insertName name ns ↔ other = name ∨ other ∈ ns := by
  induction ns with
  | nil => simp [insertName]
  | cons n ns ih =>
      rw [insertName]
      split
      · simp
      · split
        · simp_all
        · simp [ih, or_left_comm]

theorem mem_names {name : String} {xs : List String} : name ∈ names xs ↔ name ∈ xs := by
  induction xs with
  | nil => simp [names]
  | cons x xs ih =>
      change name ∈ insertName x (names xs) ↔ _
      rw [mem_insertName, ih, List.mem_cons]

theorem pairwise_insertName {name : String} {ns : List String} (h : ns.Pairwise (· < ·)) :
    (insertName name ns).Pairwise (· < ·) := by
  induction ns with
  | nil => simp [insertName]
  | cons n ns ih =>
      obtain ⟨hn, hns⟩ := List.pairwise_cons.1 h
      rw [insertName]
      split
      · rename_i hlt
        refine List.pairwise_cons.2 ⟨fun m hm => ?_, h⟩
        rcases List.mem_cons.1 hm with rfl | hm
        · exact hlt
        · exact String.lt_trans hlt (hn m hm)
      · split
        · exact h
        · rename_i hnlt hne
          refine List.pairwise_cons.2 ⟨fun m hm => ?_, ih hns⟩
          rcases mem_insertName.1 hm with rfl | hm
          · exact Std.lt_of_le_of_ne (Std.not_lt.1 hnlt) (Ne.symm hne)
          · exact hn m hm

/-- The names ascend, so that none comes twice. -/
theorem pairwise_names (xs : List String) : (names xs).Pairwise (· < ·) := by
  induction xs with
  | nil => exact .nil
  | cons x xs ih => exact pairwise_insertName ih

/-- The elements of a list by the field they go to. -/
def byField {α : Type} (field : α → String) (xs : List α) : List (String × List α) :=
  (names (xs.map field)).map fun name => (name, xs.filter (field · = name))

end Routing

namespace Document

/-- The labels of the categories the document belongs to. -/
def categories (d : Document) : List Label :=
  d.facets.filterMap fun
    | .category label _ => some label
    | _ => none

/-- The values counted without a taxonomy, each with its dimension. -/
def members (d : Document) : List (String × String) :=
  d.facets.filterMap fun
    | .member dimension value _ _ => some (dimension, value)
    | _ => none

/-- The values attached to categories. -/
def associations (d : Document) : List (Label × Association.Value) :=
  d.facets.filterMap fun
    | .association label value _ => some (label, value)
    | _ => none

end Document

namespace Dimension.Store

/-- The index field a label goes to. -/
def fieldOf (store : Store) (label : Label) : String := (store.get label.dimension).indexField

/-- The labels of the categories of a document, by index field. -/
def routeCategories (store : Store) (d : Document) : List (String × List Label) :=
  Routing.byField store.fieldOf d.categories

/-- The values counted without a taxonomy, by index field. -/
def routeMembers (store : Store) (d : Document) : List (String × List (String × String)) :=
  Routing.byField (fun m => (store.get m.1).indexField) d.members

/-- The values attached to categories, by index field. -/
def routeAssociations (store : Store) (d : Document) :
    List (String × List (Label × Association.Value)) :=
  Routing.byField (fun a => store.fieldOf a.1) d.associations

end Dimension.Store

end FacetIndex
