import FacetIndex.Taxonomy

set_option autoImplicit false

/-!
# Taxonomies in memory

The categories are kept in the order of their creation; the first one has ordinal 1.  A category is
created right after those of its ancestors that are new, so that a parent always has a smaller
ordinal than its children; the ordinal of the parent is noted at that moment and never again looked
for.  The type holds what every operation keeps: the index finds exactly the labels that are there,
the parent of a label stands before it, and what is noted above a label is the ordinal of its
parent.
-/

namespace FacetIndex

namespace Label

theorem length_lt_of_parent? {l p : Label} (h : l.parent? = some p) :
    p.length < l.length := by
  unfold parent? at h
  cases hn : l.length - 1 with
  | zero => rw [hn] at h; simp [ancestor?] at h
  | succ n =>
      rw [hn, ancestor?] at h
      split at h
      · simp only [Option.some.injEq] at h
        rw [← h]
        simp only [length, components, List.length_cons, List.length_take] at hn ⊢
        omega
      · simp at h

end Label

namespace Memory

/-- The ordinal of a place. -/
def ordinalAt (place : Nat) : Ordinal := Int32.ofNat (place + 1)

/-- The ordinal above a label: that of its parent, and that of the root above a bare dimension. -/
def ordinalAbove (index : Std.TreeMap Label Nat) (l : Label) : Ordinal :=
  match l.parent? with
  | none => Ordinal.root
  | some p => (index[p]?.map ordinalAt).getD Ordinal.invalid

theorem ordinalAbove_of_getElem? {index : Std.TreeMap Label Nat} {l p : Label} {place : Nat}
    (hp : l.parent? = some p) (h : index[p]? = some place) :
    ordinalAbove index l = ordinalAt place := by
  simp only [ordinalAbove, hp, h, Option.map_some, Option.getD_some]

/-- A label that is new to the index is not above any label whose parent the index has. -/
theorem ordinalAbove_insert {index : Std.TreeMap Label Nat} {l new : Label} (place : Nat)
    (fresh : index[new]? = none) (known : ∀ p, l.parent? = some p → ∃ j : Nat, index[p]? = some j) :
    ordinalAbove (index.insert new place) l = ordinalAbove index l := by
  unfold ordinalAbove
  cases hp : l.parent? with
  | none => rfl
  | some p =>
      obtain ⟨j, hj⟩ := known p hp
      have hne : new ≠ p := by
        rintro rfl
        rw [fresh] at hj
        cases hj
      have hc : compare new p ≠ .eq := fun h => hne (Std.LawfulEqCmp.eq_of_compare h)
      simp only [Std.TreeMap.getElem?_insert, if_neg hc]

end Memory

/-- A taxonomy in memory. -/
structure Memory where
  /-- The place of each label. -/
  index : Std.TreeMap Label Nat := ∅
  /-- The labels in the order of creation; the label at place `i` has ordinal `i + 1`. -/
  labels : Array Label := #[]
  /-- The parent of each ordinal, as it was noted when the ordinal was given; the root has none. -/
  parents : Array Ordinal := #[Ordinal.invalid]
  /-- The index finds exactly the labels that are there. -/
  index_iff : ∀ (l : Label) (i : Nat), index[l]? = some i ↔ labels[i]? = some l := by simp
  /-- A parent stands before its children. -/
  parent_before : ∀ (i : Nat) (l p : Label), labels[i]? = some l → l.parent? = some p →
    ∃ j : Nat, j < i ∧ labels[j]? = some p := by simp
  /-- The root has no parent. -/
  root_parent : parents[0]? = some Ordinal.invalid := by simp
  /-- The ordinal above a label is noted as its parent. -/
  label_parent : ∀ i : Nat, parents[i + 1]? = labels[i]?.map (Memory.ordinalAbove index) := by simp

namespace Memory

/-- The number of ordinals in use, that of the root included. -/
def size (m : Memory) : Nat := m.labels.size + 1

/-- There is no category. -/
def isEmpty (m : Memory) : Bool := m.labels.isEmpty

/-- The ordinal of a label that is there. -/
def ordinal? (m : Memory) (l : Label) : Option Ordinal := m.index[l]?.map ordinalAt

/-- The label of an ordinal; the root has none. -/
def label? (m : Memory) (o : Ordinal) : Option Label :=
  if 0 < o then m.labels[o.toNatClampNeg - 1]? else none

/-- The parent of an ordinal, as it was noted; the root and ordinals that are not in use have none.
-/
def parentOf (m : Memory) (o : Ordinal) : Ordinal :=
  if 0 ≤ o then m.parents[o.toNatClampNeg]?.getD Ordinal.invalid else Ordinal.invalid

theorem lt_size_of_getElem? {m : Memory} {l : Label} {i : Nat} (h : m.labels[i]? = some l) :
    i < m.labels.size := by
  have := Array.getElem?_eq_some_iff.1 h
  exact this.1

/-- The category is there. -/
def Has (m : Memory) (l : Label) : Prop := ∃ place : Nat, m.labels[place]? = some l

theorem size_parents (m : Memory) : m.parents.size = m.labels.size + 1 := by
  have hroot := (Array.getElem?_eq_some_iff.1 m.root_parent).1
  have hlast := m.label_parent m.labels.size
  rw [Array.getElem?_eq_none (Nat.le_refl _), Option.map_none, Array.getElem?_eq_none_iff] at hlast
  have hall : ∀ i < m.labels.size, i + 1 < m.parents.size := by
    intro i hi
    have hi' := m.label_parent i
    rw [Array.getElem?_eq_getElem hi, Option.map_some] at hi'
    exact (Array.getElem?_eq_some_iff.1 hi').1
  cases hsize : m.labels.size with
  | zero => omega
  | succ n =>
      have := hall n (by omega)
      omega

/-- Adds a new label whose parent is there, with the ordinal above it. -/
def push (m : Memory) (l : Label) (parent : Ordinal) (fresh : m.index[l]? = none)
    (known : ∀ p, l.parent? = some p → m.Has p) (above : parent = ordinalAbove m.index l) :
    Memory where
  index := m.index.insert l m.labels.size
  labels := m.labels.push l
  parents := m.parents.push parent
  index_iff l' i := by
    rw [Std.TreeMap.getElem?_insert, Array.getElem?_push]
    by_cases hl : l = l'
    · subst hl
      have hne : ∀ i, m.labels[i]? ≠ some l := fun i h => by
        rw [← m.index_iff, fresh] at h
        simp at h
      by_cases hi : i = m.labels.size
      · simp [hi]
      · simp [hi, hne, Ne.symm hi]
    · have hc : compare l l' ≠ .eq := fun h => hl (Std.LawfulEqCmp.eq_of_compare h)
      rw [if_neg hc, m.index_iff]
      by_cases hi : i = m.labels.size
      · subst hi
        simp [hl]
      · simp [hi]
  parent_before i l' p h hp := by
    rw [Array.getElem?_push] at h
    have keep : ∀ j, j < m.labels.size → (m.labels.push l)[j]? = m.labels[j]? := fun j hj => by
      rw [Array.getElem?_push, if_neg (Nat.ne_of_lt hj)]
    by_cases hi : i = m.labels.size
    · rw [if_pos hi] at h
      simp only [Option.some.injEq] at h
      subst h
      obtain ⟨j, hj⟩ := known p hp
      have hlt := lt_size_of_getElem? hj
      exact ⟨j, hi ▸ hlt, by rw [keep j hlt]; exact hj⟩
    · rw [if_neg hi] at h
      obtain ⟨j, hji, hj⟩ := m.parent_before i l' p h hp
      exact ⟨j, hji, by rw [keep j (lt_size_of_getElem? hj)]; exact hj⟩
  root_parent := by
    have hne : ¬ 0 = m.parents.size := by rw [m.size_parents]; omega
    rw [Array.getElem?_push, if_neg hne, m.root_parent]
  label_parent i := by
    rw [Array.getElem?_push, Array.getElem?_push, m.size_parents]
    by_cases hi : i = m.labels.size
    · rw [if_pos hi, if_pos (congrArg Nat.succ hi), Option.map_some, above]
      rw [ordinalAbove_insert _ fresh fun p hp => ?_]
      obtain ⟨j, hj⟩ := known p hp
      exact ⟨j, (m.index_iff p j).2 hj⟩
    · rw [if_neg hi, if_neg fun h => hi (Nat.succ.inj h), m.label_parent]
      cases hl : m.labels[i]? with
      | none => rfl
      | some l' =>
          rw [Option.map_some, Option.map_some, ordinalAbove_insert _ fresh fun p hp => ?_]
          obtain ⟨j, _, hj⟩ := m.parent_before i l' p hl hp
          exact ⟨j, (m.index_iff p j).2 hj⟩

/-- The place of a label that is there, together with the taxonomy. -/
abbrev Placed (l : Label) : Type := { r : Nat × Memory // r.2.labels[r.1]? = some l }

/-- Finds a label, or adds it below the ordinal above it. -/
def placeBelow (m : Memory) (l : Label) (parent : Ordinal)
    (known : ∀ p, l.parent? = some p → m.Has p) (above : parent = ordinalAbove m.index l) :
    Placed l :=
  match h : m.index[l]? with
  | some i => ⟨(i, m), (m.index_iff l i).1 h⟩
  | none => ⟨(m.labels.size, m.push l parent h known above), by simp [push]⟩

/-- Finds a label, or adds it behind those of its ancestors that are new. -/
def place (m : Memory) (l : Label) : Placed l :=
  match h : m.index[l]? with
  | some i => ⟨(i, m), (m.index_iff l i).1 h⟩
  | none =>
      match hp : l.parent? with
      | none => m.placeBelow l Ordinal.root (by simp [hp]) (by simp [ordinalAbove, hp])
      | some p =>
          let r := m.place p
          r.1.2.placeBelow l (ordinalAt r.1.1) (by rw [hp]; rintro _ ⟨⟩; exact ⟨r.1.1, r.2⟩)
            (ordinalAbove_of_getElem? hp ((r.1.2.index_iff p r.1.1).2 r.2)).symm
termination_by l.length
decreasing_by exact Label.length_lt_of_parent? hp

/-- The taxonomy after a label was asked for. -/
def add (m : Memory) (l : Label) : Memory := (m.place l).1.2

/-- How a taxonomy in memory answers: no question fails. -/
def taxonomy : Taxonomy Memory where
  addCategory l := fun m => let r := (m.place l).1; (.ok (ordinalAt r.1), r.2)
  parentOf o := fun m => (.ok (m.parentOf o), m)

end Memory

end FacetIndex
