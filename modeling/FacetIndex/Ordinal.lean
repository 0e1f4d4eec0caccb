set_option autoImplicit false

/-!
# Ordinals

A taxonomy numbers its categories.  The root has the ordinal 0 and categories have positive ones; a
negative number stands where there is no category.
-/

namespace FacetIndex

/-- The number of a category. -/
abbrev Ordinal : Type := Int32

namespace Ordinal

/-- The ordinal of the root, which is an ancestor of every category. -/
def root : Ordinal := 0

/-- Stands for the parent of an ordinal that has none. -/
def invalid : Ordinal := -1

/-- The largest ordinal, which is also the number of positive ones. -/
def largest : Nat := 0x7fffffff

/-- Ordinals that ascend or repeat. -/
def sort (ordinals : List Ordinal) : List Ordinal :=
  ordinals.mergeSort fun a b => decide (a ≤ b)

theorem sort_perm (os : List Ordinal) : (sort os).Perm os := List.mergeSort_perm _ _

theorem pairwise_sort (os : List Ordinal) : (sort os).Pairwise (· ≤ ·) := by
  have h := @List.pairwise_mergeSort Ordinal (fun a b => decide (a ≤ b))
    (fun a b c hab hbc => by
      simp only [decide_eq_true_eq] at *
      exact Int32.le_trans hab hbc)
    (fun a b => by simpa using Int32.le_total a b) os
  simpa [sort] using h

/-- Of neighbours that are equal keeps one. -/
def dropRepeats : List Ordinal → List Ordinal
  | a :: b :: rest => if a = b then dropRepeats (b :: rest) else a :: dropRepeats (b :: rest)
  | short => short

theorem mem_dropRepeats {o : Ordinal} {os : List Ordinal} : o ∈ dropRepeats os ↔ o ∈ os := by
  fun_induction dropRepeats os with
  | case1 b rest ih => simp [ih]
  | case2 a b rest h ih => simp_all
  | case3 => rfl

/-- Without repeats a sorted list ascends strictly. -/
theorem pairwise_dropRepeats {os : List Ordinal} (h : os.Pairwise (· ≤ ·)) :
    (dropRepeats os).Pairwise (· < ·) := by
  fun_induction dropRepeats os with
  | case1 b rest ih => exact ih h.tail
  | case2 a b rest hab ih =>
      obtain ⟨ha, htail⟩ := List.pairwise_cons.1 h
      have hb := (List.pairwise_cons.1 htail).1
      refine List.pairwise_cons.2 ⟨fun c hc => ?_, ih htail⟩
      have hlt : a < b := Std.lt_of_le_of_ne (ha b List.mem_cons_self) hab
      rcases List.mem_cons.1 (mem_dropRepeats.1 hc) with rfl | hc
      · exact hlt
      · exact Std.lt_of_lt_of_le hlt (hb c hc)
  | case3 os hos =>
      cases os with
      | nil => exact .nil
      | cons a os =>
          cases os with
          | nil => simp
          | cons b os => exact absurd rfl (hos a b os)

end Ordinal

end FacetIndex
