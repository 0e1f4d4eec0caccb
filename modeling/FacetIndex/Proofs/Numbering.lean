/-
  Proofs/Numbering.lean --- the numbering of categories.

  WHAT THIS FILE IS FOR.  A taxonomy in memory numbers its categories from 1 on
  without a gap, and the way from an ordinal to its parents is the way from a label
  to its ancestors: it goes strictly down, meets the ancestors from the longest to
  the shortest, and is at the root after as many steps as the label has components.
  `Memory.Numbering` says all of this of ordinals and labels only.

  WHAT IS PROVED.

      Memory.ordinal?_eq_some_iff    the ordinal of a label that is there
      Memory.iterate_parentOf        going up several times
      Memory.Fits.numbering          a taxonomy with room is a numbering
      Memory.numbering_of_requests   whatever a new taxonomy is asked for, it
                                     answers with the ordinals of the labels, and
                                     what it holds then is a numbering of them

  WHAT IS NOT SAID.  It takes ordinals for all labels, and nothing is claimed of a
  taxonomy that has more.
-/
import FacetIndex.Proofs.Resolution

set_option autoImplicit false

namespace FacetIndex.Memory

/-- Ordinals and labels belong to each other, and parents to ancestors. -/
structure Numbering (m : Memory) : Prop where
  /-- Each of an ordinal and its label is found by the other. -/
  ordinal_iff : ∀ (l : Label) (o : Ordinal), m.ordinal? l = some o ↔ m.label? o = some l
  /-- The ordinals of labels are those from 1 on that are below the size. -/
  dense : ∀ o : Ordinal, (∃ l, m.label? o = some l) ↔ 1 ≤ o.toInt ∧ o.toInt < m.size
  /-- What a label starts with has an ordinal, too. -/
  closed : ∀ (l : Label) (o : Ordinal), m.ordinal? l = some o →
    ∀ (len : Nat) (a : Label), l.ancestor? len = some a → ∃ p, m.ordinal? a = some p
  /-- The parent has the label without its last component, or it is the root. -/
  parent : ∀ (l : Label) (o : Ordinal), m.ordinal? l = some o →
    m.parentOf o < o ∧
      (l.length = 1 → m.parentOf o = Ordinal.root) ∧
      (1 < l.length → ∃ a, l.ancestor? (l.length - 1) = some a ∧
        m.ordinal? a = some (m.parentOf o))
  /-- After as many steps as the label has components, and not before, the root is reached; on the
  way are the ordinals of the shorter and shorter labels. -/
  climb : ∀ (l : Label) (o : Ordinal), m.ordinal? l = some o →
    m.parentOf^[l.length] o = Ordinal.root ∧
      ∀ k < l.length, m.parentOf^[k] o ≠ Ordinal.root ∧
        ∃ a, l.ancestor? (l.length - k) = some a ∧ m.ordinal? a = some (m.parentOf^[k] o)
  /-- So the search for the ancestors of an ordinal comes to its end. -/
  search : ∀ (l : Label) (o : Ordinal), m.ordinal? l = some o →
    (taxonomy.ancestors Taxonomy.ancestorSteps o).from m =
      (.ok ((List.range (l.length - 1)).map fun k => m.parentOf^[k + 1] o), m)
  /-- Neither the root nor an ordinal that is not in use has a parent. -/
  outside : ∀ o : Ordinal, o.toInt ≤ 0 ∨ m.size ≤ o.toInt → m.parentOf o = Ordinal.invalid

/-! ## Labels and places -/

theorem ordinalAt_toNatClampNeg_sub_one {o : Ordinal} (h : 0 < o) :
    ordinalAt (o.toNatClampNeg - 1) = o := by
  rw [ordinalAt, toNatClampNeg_sub_add_one h]
  exact OrdinalSet.ofNat_toNat (Int32.le_of_lt h)

theorem ordinal?_eq_some_iff {m : Memory} {l : Label} {o : Ordinal} :
    m.ordinal? l = some o ↔ m.Has l ∧ m.ordinalOf l = o := by
  constructor
  · intro h
    refine ⟨?_, by rw [ordinalOf, h, Option.getD_some]⟩
    obtain ⟨i, hi, _⟩ := Option.map_eq_some_iff.1 h
    exact ⟨i, (m.index_iff l i).1 hi⟩
  · intro h
    obtain ⟨⟨i, hi⟩, rfl⟩ := h
    rw [ordinalOf_of_getElem? hi, ordinal?_of_getElem? hi]

theorem ordinal?_eq_some_of_label? {m : Memory} {l : Label} {o : Ordinal}
    (h : m.label? o = some l) : m.ordinal? l = some o := by
  unfold label? at h
  split at h
  · rename_i ho
    rw [ordinal?_of_getElem? h, ordinalAt_toNatClampNeg_sub_one ho]
  · cases h

theorem exists_label?_iff (m : Memory) (o : Ordinal) :
    (∃ l, m.label? o = some l) ↔ 1 ≤ o.toInt ∧ o.toInt < m.size := by
  have hpos : 0 < o ↔ 1 ≤ o.toInt := by
    rw [Int32.lt_iff_toInt_lt, Int32.toInt_zero]
    omega
  have hvalue : o.toNatClampNeg = o.toInt.toNat := rfl
  unfold label? size
  constructor
  · intro h
    obtain ⟨l, hl⟩ := h
    split at hl
    · rename_i ho
      have := hpos.1 ho
      have := lt_size_of_getElem? hl
      omega
    · cases hl
  · intro h
    rw [if_pos (hpos.2 h.1)]
    exact exists_getElem? (by omega)

/-! ## The way to the root -/

section Fitting

variable {m : Memory} {l : Label} (hm : m.Fits) (hl : m.Has l)
include hm hl

theorem parentOf_ordinalOf_lt : m.parentOf (m.ordinalOf l) < m.ordinalOf l := by
  cases hn : l.path.length with
  | zero =>
    rw [parentOf_ordinalOf_of_path_nil hm hl hn]
    exact ordinalOf_pos hm hl
  | succ n =>
    rw [parentOf_ordinalOf_of_path_succ hm hl hn]
    obtain ⟨i, hi⟩ := hl
    obtain ⟨j, hji, hj⟩ := m.parent_before i l _ hi (Label.parent?_of_path_succ hn)
    have hfits : i < Ordinal.largest := Nat.lt_of_lt_of_le (lt_size_of_getElem? hi) hm
    rw [Ordinal.largest] at hfits
    rw [ordinalOf_of_getElem? hi, ordinalOf_of_getElem? hj, Int32.lt_iff_toInt_lt, ordinalAt,
      ordinalAt, Int32.toInt_ofNat_of_lt (by omega), Int32.toInt_ofNat_of_lt (by omega)]
    omega

/-- Each step up drops the last component that is left. -/
theorem iterate_parentOf (k : Nat) (hk : k ≤ l.path.length) :
    m.parentOf^[k] (m.ordinalOf l) = m.ordinalOf (l.cut (l.path.length - k)) := by
  induction k with
  | zero => rw [Nat.sub_zero, Label.cut_of_length_le (Nat.le_refl _), Function.iterate_zero, id_eq]
  | succ k ih =>
    have hlength : (l.cut (l.path.length - k)).path.length = l.path.length - (k + 1) + 1 := by
      rw [Label.path_cut, List.length_take]
      omega
    rw [Function.iterate_succ_apply', ih (by omega),
      parentOf_ordinalOf_of_path_succ hm (hl.cut _) hlength, Label.cut_cut, Nat.min_eq_left]
    omega

theorem iterate_parentOf_length : m.parentOf^[l.length] (m.ordinalOf l) = Ordinal.root := by
  rw [Label.length_eq, Function.iterate_succ_apply', iterate_parentOf hm hl _ (Nat.le_refl _),
    Nat.sub_self]
  refine parentOf_ordinalOf_of_path_nil hm (hl.cut 0) ?_
  rw [Label.path_cut, List.take_zero, List.length_nil]

/-- The ordinals of the ancestors are met one after the other. -/
theorem map_ordinalOf_above :
    l.above.map m.ordinalOf =
      (List.range (l.length - 1)).map fun k => m.parentOf^[k + 1] (m.ordinalOf l) := by
  rw [Label.above, Label.length_eq, Nat.add_sub_cancel]
  refine List.ext_getElem (by simp) fun k h _ => ?_
  simp only [List.length_map, List.length_reverse, List.length_range] at h
  simp only [List.getElem_map, List.getElem_reverse, List.length_range, List.getElem_range]
  rw [iterate_parentOf hm hl (k + 1) h, Nat.sub_sub, Nat.add_comm 1 k]

end Fitting

/-- What a taxonomy answers numbers its categories, as long as there are ordinals for them. -/
theorem Fits.numbering {m : Memory} (hm : m.Fits) : m.Numbering where
  ordinal_iff l o := by
    refine ⟨fun h => ?_, ordinal?_eq_some_of_label?⟩
    obtain ⟨hl, rfl⟩ := ordinal?_eq_some_iff.1 h
    exact label?_ordinalOf hm hl
  dense := exists_label?_iff m
  closed l o h len a ha := by
    obtain ⟨n, _, _, rfl⟩ := Label.ancestor?_eq_some_iff.1 ha
    exact ⟨_, ordinal?_eq_some_iff.2 ⟨(ordinal?_eq_some_iff.1 h).1.cut n, rfl⟩⟩
  parent l o h := by
    obtain ⟨hl, rfl⟩ := ordinal?_eq_some_iff.1 h
    refine ⟨parentOf_ordinalOf_lt hm hl, fun hone => ?_, fun hmore => ?_⟩
    · exact parentOf_ordinalOf_of_path_nil hm hl (Nat.succ.inj hone)
    · rw [Label.length_eq] at hmore
      refine ⟨l.cut (l.path.length - 1), ?_, ?_⟩
      · exact Label.ancestor?_eq_some_iff.2 ⟨_, by rw [Label.length_eq]; omega, by omega, rfl⟩
      · rw [parentOf_ordinalOf_of_path_succ hm hl (n := l.path.length - 1) (by omega)]
        exact ordinal?_eq_some_iff.2 ⟨hl.cut _, rfl⟩
  climb l o h := by
    obtain ⟨hl, rfl⟩ := ordinal?_eq_some_iff.1 h
    refine ⟨iterate_parentOf_length hm hl, fun k hk => ?_⟩
    rw [Label.length_eq] at hk
    rw [iterate_parentOf hm hl k (by omega)]
    refine ⟨?_, l.cut (l.path.length - k), ?_, ordinal?_eq_some_iff.2 ⟨hl.cut _, rfl⟩⟩
    · exact (Std.ne_of_lt (ordinalOf_pos hm (hl.cut _))).symm
    · exact Label.ancestor?_eq_some_iff.2 ⟨_, by rw [Label.length_eq]; omega, by omega, rfl⟩
  search l o h := by
    obtain ⟨hl, rfl⟩ := ordinal?_eq_some_iff.1 h
    have hsteps : l.path.length < Taxonomy.ancestorSteps :=
      Nat.lt_succ_of_lt (path_length_lt_largest hm hl)
    rw [from_ancestors hm _ hl hsteps, map_ordinalOf_above hm hl]
  outside o h := by
    cases hl : m.label? o with
    | none => exact parentOf_of_label?_eq_none hl
    | some l =>
      have := (exists_label?_iff m o).1 ⟨l, hl⟩
      omega

/-- However categories are asked for, a new taxonomy answers with the ordinals of the labels, and
what it holds then is a numbering of them. -/
theorem numbering_of_requests (ls : List Label) (hsize : (addAll {} ls).size ≤ 2 ^ 31) :
    (ls.mapM taxonomy.addCategory).from {} =
        (.ok (ls.map (addAll {} ls).ordinalOf), addAll {} ls) ∧
      (addAll {} ls).Numbering := by
  have hfits : (addAll {} ls).Fits := by
    rw [size] at hsize
    rw [Fits, Ordinal.largest]
    omega
  have hreads := Reads.mapM reads_addCategory ls
  rw [List.flatMap_singleton'] at hreads
  exact ⟨hreads.succeeds hfits, hfits.numbering⟩

/-- Two issues of one volume, and a publisher in between. -/
def issuesAndPublisher : List Label := [
  ⟨"Issue", ["12", "3"], by decide, by decide⟩,
  ⟨"Publisher", ["Orbit"], by decide, by decide⟩,
  ⟨"Issue", ["12", "4"], by decide, by decide⟩]

/-- The second issue finds its volume, which was created for the first one. -/
theorem numbering_of_requests_issuesAndPublisher :
    (addAll {} issuesAndPublisher).size ≤ 2 ^ 31 ∧
      (issuesAndPublisher.mapM taxonomy.addCategory).from {} =
        (.ok [3, 5, 6], addAll {} issuesAndPublisher) ∧
      (addAll {} issuesAndPublisher).Numbering ∧ (addAll {} issuesAndPublisher).parentOf 6 = 2 := by
  have hsize : (addAll {} issuesAndPublisher).size = 7 := by decide +kernel
  have hle : (addAll {} issuesAndPublisher).size ≤ 2 ^ 31 := by rw [hsize]; decide
  have hordinals : issuesAndPublisher.map (addAll {} issuesAndPublisher).ordinalOf = [3, 5, 6] := by
    decide +kernel
  obtain ⟨hrun, hnumbering⟩ := numbering_of_requests issuesAndPublisher hle
  rw [hordinals] at hrun
  exact ⟨hle, hrun, hnumbering, by decide +kernel⟩

end FacetIndex.Memory
