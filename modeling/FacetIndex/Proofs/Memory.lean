/-
  Proofs/Memory.lean --- taxonomies in memory grow.

  WHAT THIS FILE IS FOR.  Adding a category keeps everything that was there:
  `Memory.Extends` is that relation between an earlier and a later taxonomy.  What a
  label's ordinal and its parent's ordinal are can therefore be read off any later
  taxonomy that has the label.

  WHAT IS PROVED.

      Memory.extends_add, Memory.extends_addAll   adding labels keeps what was there
      Memory.has_add, Memory.has_addAll           and the labels are there then
      Memory.Extends.ordinalOf_eq                 a label keeps its ordinal
      Memory.parentOf_ordinalOf_of_path_succ      the parent of the ordinal of a
                                                  label is that of its parent

  ROOM.  Ordinals are 32-bit numbers.  `Memory.Fits` says that there are no more
  categories than positive ordinals; then every category has an ordinal of its own,
  and it is positive.  Only the last of the four needs it.

  WHAT IS NOT SAID.  How a full taxonomy behaves; see `Proofs/Exhaustion.lean`.
-/
import FacetIndex.Proofs.Label
import FacetIndex.Taxonomy.Memory

set_option autoImplicit false

namespace FacetIndex.Memory

/-! ## Places -/

theorem exists_getElem? {m : Memory} {i : Nat} (h : i < m.labels.size) :
    ∃ l, m.labels[i]? = some l :=
  ⟨m.labels[i], Array.getElem?_eq_getElem h⟩

theorem ordinal?_of_getElem? {m : Memory} {l : Label} {i : Nat} (h : m.labels[i]? = some l) :
    m.ordinal? l = some (ordinalAt i) := by
  rw [ordinal?, (m.index_iff l i).2 h]
  rfl

/-- The ordinal of a label, which is no category's if the label is not there. -/
def ordinalOf (m : Memory) (l : Label) : Ordinal := (m.ordinal? l).getD Ordinal.invalid

theorem ordinalOf_of_getElem? {m : Memory} {l : Label} {i : Nat} (h : m.labels[i]? = some l) :
    m.ordinalOf l = ordinalAt i := by
  rw [ordinalOf, ordinal?_of_getElem? h, Option.getD_some]

/-- Positive ordinals count from 1. -/
theorem toNatClampNeg_sub_add_one {o : Ordinal} (h : 0 < o) :
    o.toNatClampNeg - 1 + 1 = o.toNatClampNeg := by
  rw [Int32.lt_iff_toInt_lt, Int32.toInt_zero] at h
  rw [Int32.toNatClampNeg]
  omega

/-- What is noted for the ordinal of a label is the ordinal above the label. -/
theorem parentOf_of_label? {m : Memory} {o : Ordinal} {l : Label} (h : m.label? o = some l) :
    m.parentOf o = ordinalAbove m.index l := by
  unfold label? at h
  split at h
  · rename_i ho
    rw [parentOf, if_pos (Int32.le_of_lt ho), ← toNatClampNeg_sub_add_one ho, m.label_parent, h,
      Option.map_some, Option.getD_some]
  · cases h

theorem parentOf_of_label?_eq_none {m : Memory} {o : Ordinal} (h : m.label? o = none) :
    m.parentOf o = Ordinal.invalid := by
  unfold parentOf
  split
  · rename_i ho
    by_cases hpos : 0 < o
    · rw [label?, if_pos hpos] at h
      rw [← toNatClampNeg_sub_add_one hpos, m.label_parent, h, Option.map_none, Option.getD_none]
    · have hzero : o = 0 := Int32.le_antisymm (Int32.not_lt.1 hpos) ho
      have hroot : (0 : Ordinal).toNatClampNeg = 0 := by decide
      rw [hzero, hroot, m.root_parent, Option.getD_some]
  · rfl

/-- The ancestors of a category are there. -/
theorem Has.cut {m : Memory} {l : Label} (h : m.Has l) (n : Nat) : m.Has (l.cut n) := by
  induction hk : l.path.length generalizing l with
  | zero => rwa [Label.cut_of_length_le (by omega)]
  | succ k ih =>
    by_cases hn : k + 1 ≤ n
    · rwa [Label.cut_of_length_le (by omega)]
    · obtain ⟨i, hi⟩ := h
      obtain ⟨j, _, hj⟩ := m.parent_before i l _ hi (Label.parent?_of_path_succ hk)
      have hlength : (l.cut k).path.length = k := by
        rw [Label.path_cut, List.length_take]
        omega
      have hcut := ih ⟨j, hj⟩ hlength
      rwa [Label.cut_cut, Nat.min_eq_left (by omega)] at hcut

/-- A label has no more components below its dimension than there are places before it. -/
theorem path_length_le_place {m : Memory} {l : Label} {i : Nat} (h : m.labels[i]? = some l) :
    l.path.length ≤ i := by
  induction hk : l.path.length generalizing l i with
  | zero => exact Nat.zero_le i
  | succ k ih =>
    obtain ⟨j, hji, hj⟩ := m.parent_before i l _ h (Label.parent?_of_path_succ hk)
    have hlength : (l.cut k).path.length = k := by
      rw [Label.path_cut, List.length_take]
      omega
    have := ih hj hlength
    omega

/-! ## Growth -/

/-- The later taxonomy has every category of the earlier one at its place. -/
def Extends (m m' : Memory) : Prop :=
  ∀ ⦃i : Nat⦄ ⦃l : Label⦄, m.labels[i]? = some l → m'.labels[i]? = some l

theorem Extends.refl (m : Memory) : m.Extends m := by
  intro i l h
  exact h

theorem Extends.trans {a b c : Memory} (hab : a.Extends b) (hbc : b.Extends c) : a.Extends c := by
  intro i l h
  exact hbc (hab h)

theorem Has.of_extends {m m' : Memory} {l : Label} (h : m.Has l) (hle : m.Extends m') :
    m'.Has l := by
  obtain ⟨i, hi⟩ := h
  exact ⟨i, hle hi⟩

theorem Extends.ordinalOf_eq {m m' : Memory} (h : m.Extends m') {l : Label} (hl : m.Has l) :
    m'.ordinalOf l = m.ordinalOf l := by
  obtain ⟨i, hi⟩ := hl
  rw [ordinalOf_of_getElem? hi, ordinalOf_of_getElem? (h hi)]

theorem Extends.label?_eq {m m' : Memory} (h : m.Extends m') {o : Ordinal} {l : Label}
    (hl : m.label? o = some l) : m'.label? o = some l := by
  unfold label? at hl ⊢
  split at hl
  · rename_i ho
    rw [if_pos ho]
    exact h hl
  · cases hl

theorem extends_push (m : Memory) (l : Label) (parent : Ordinal) (fresh : m.index[l]? = none)
    (known : ∀ p, l.parent? = some p → m.Has p) (above : parent = ordinalAbove m.index l) :
    m.Extends (m.push l parent fresh known above) := by
  intro i k h
  have hi := lt_size_of_getElem? h
  rw [push, Array.getElem?_push, if_neg (Nat.ne_of_lt hi)]
  exact h

theorem extends_placeBelow (m : Memory) (l : Label) (parent : Ordinal)
    (known : ∀ p, l.parent? = some p → m.Has p) (above : parent = ordinalAbove m.index l) :
    m.Extends (m.placeBelow l parent known above).1.2 := by
  unfold placeBelow
  split
  · exact Extends.refl m
  · rename_i fresh
    exact extends_push m l parent fresh known above

/-- A label that is there is found, and nothing is added. -/
theorem place_of_getElem? {m : Memory} {l : Label} {i : Nat} (h : m.labels[i]? = some l) :
    (m.place l).1 = (i, m) := by
  have hindex := (m.index_iff l i).2 h
  rw [place]
  split
  · rename_i j hj
    rw [hindex] at hj
    cases hj
    rfl
  · rename_i hnone
    rw [hindex] at hnone
    cases hnone

theorem extends_add (m : Memory) (l : Label) : m.Extends (m.add l) := by
  unfold add
  fun_induction place m l with
  | case1 l i h => exact Extends.refl m
  | case2 l h hp => exact extends_placeBelow m l _ _ _
  | case3 l h p hp r =>
    rename_i ih
    exact ih.trans (extends_placeBelow r.1.2 l _ _ _)

theorem add_getElem?_place (m : Memory) (l : Label) :
    (m.add l).labels[(m.place l).1.1]? = some l :=
  (m.place l).2

theorem has_add (m : Memory) (l : Label) : (m.add l).Has l := ⟨_, m.add_getElem?_place l⟩

theorem add_of_has {m : Memory} {l : Label} (h : m.Has l) : m.add l = m := by
  obtain ⟨i, hi⟩ := h
  rw [add, place_of_getElem? hi]

/-- The taxonomy after several labels were asked for, one after the other. -/
def addAll (m : Memory) (ls : List Label) : Memory := ls.foldl add m

theorem extends_addAll (m : Memory) (ls : List Label) : m.Extends (m.addAll ls) := by
  induction ls generalizing m with
  | nil => exact Extends.refl m
  | cons l ls ih => exact (m.extends_add l).trans (ih (m.add l))

theorem addAll_append (m : Memory) (ks ls : List Label) :
    m.addAll (ks ++ ls) = (m.addAll ks).addAll ls :=
  List.foldl_append

theorem has_addAll {m : Memory} {ls : List Label} {l : Label} (h : l ∈ ls) :
    (m.addAll ls).Has l := by
  induction ls generalizing m with
  | nil => cases h
  | cons k ls ih =>
    rcases List.mem_cons.1 h with rfl | h
    · exact (m.has_add l).of_extends (extends_addAll _ ls)
    · exact ih h

/-! ## Ordinals that fit -/

/-- There are no more categories than positive ordinals. -/
def Fits (m : Memory) : Prop := m.labels.size ≤ Ordinal.largest

instance (m : Memory) : Decidable m.Fits := Nat.decLe _ _

/-- With the root there are no more than `2 ^ 31` ordinals in use. -/
theorem fits_iff_size_le {m : Memory} : m.Fits ↔ m.size ≤ 2 ^ 31 := by
  rw [Fits, size, Ordinal.largest]
  omega

theorem Extends.size_le {m m' : Memory} (h : m.Extends m') : m.labels.size ≤ m'.labels.size := by
  cases hs : m.labels.size with
  | zero => exact Nat.zero_le _
  | succ n =>
    obtain ⟨l, hl⟩ := exists_getElem? (show n < m.labels.size by omega)
    exact lt_size_of_getElem? (h hl)

theorem Fits.of_extends {m m' : Memory} (h : m'.Fits) (hle : m.Extends m') : m.Fits :=
  Nat.le_trans hle.size_le h

theorem toNatClampNeg_ordinalAt {i : Nat} (h : i < Ordinal.largest) :
    (ordinalAt i).toNatClampNeg = i + 1 := by
  rw [Ordinal.largest] at h
  exact Int32.toNatClampNeg_ofNat_of_lt (by omega)

theorem ordinalAt_pos {i : Nat} (h : i < Ordinal.largest) : 0 < ordinalAt i := by
  have hvalue := toNatClampNeg_ordinalAt h
  rw [Int32.toNatClampNeg] at hvalue
  rw [Int32.lt_iff_toInt_lt, Int32.toInt_zero]
  omega

theorem label?_ordinalAt {m : Memory} (hm : m.Fits) {i : Nat} {l : Label}
    (h : m.labels[i]? = some l) : m.label? (ordinalAt i) = some l := by
  have hi : i < Ordinal.largest := Nat.lt_of_lt_of_le (lt_size_of_getElem? h) hm
  rw [label?, if_pos (ordinalAt_pos hi), toNatClampNeg_ordinalAt hi, Nat.add_sub_cancel]
  exact h

section Fitting

variable {m : Memory} {l : Label} (hm : m.Fits) (hl : m.Has l)
include hm hl

/-- The label of the ordinal of a category is the category. -/
theorem label?_ordinalOf : m.label? (m.ordinalOf l) = some l := by
  obtain ⟨i, hi⟩ := hl
  rw [ordinalOf_of_getElem? hi]
  exact label?_ordinalAt hm hi

theorem ordinalOf_pos : 0 < m.ordinalOf l := by
  obtain ⟨i, hi⟩ := hl
  rw [ordinalOf_of_getElem? hi]
  exact ordinalAt_pos (Nat.lt_of_lt_of_le (lt_size_of_getElem? hi) hm)

/-- A bare dimension is right below the root. -/
theorem parentOf_ordinalOf_of_path_nil (h : l.path.length = 0) :
    m.parentOf (m.ordinalOf l) = Ordinal.root := by
  rw [parentOf_of_label? (label?_ordinalOf hm hl)]
  simp only [ordinalAbove, Label.parent?_of_path_nil h]

/-- The parent of a category is the one without its last component. -/
theorem parentOf_ordinalOf_of_path_succ {n : Nat} (h : l.path.length = n + 1) :
    m.parentOf (m.ordinalOf l) = m.ordinalOf (l.cut n) := by
  rw [parentOf_of_label? (label?_ordinalOf hm hl)]
  simp only [ordinalAbove, Label.parent?_of_path_succ h]
  rfl

theorem path_length_lt_largest : l.path.length < Ordinal.largest := by
  obtain ⟨i, hi⟩ := hl
  have hpath := path_length_le_place hi
  have hplace := lt_size_of_getElem? hi
  unfold Fits at hm
  omega

end Fitting

end FacetIndex.Memory
