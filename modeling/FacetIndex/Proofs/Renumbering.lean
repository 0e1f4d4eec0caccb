/-
  Proofs/Renumbering.lean --- the order of requests renumbers the categories.

  WHAT THIS FILE IS FOR.  A request changes nothing of what a taxonomy in memory
  says about ordinals in use; it adds ordinals or it does not even do that.  Which
  categories there are in the end is decided by the set of labels that were asked
  for, and only their numbers by the order.  `Memory.renumber` goes from the numbers
  of one taxonomy to those of another by way of the labels.

  WHAT IS PROVED.

      Memory.add_of_ancestor         asking for what a category in use starts with
                                     adds nothing
      Memory.size_addAll_empty       how many categories there are in the end
      Memory.renumber_renumber       between taxonomies with the same categories
                                     renumbering loses nothing
      Memory.parentOf_renumber       and it takes parents to parents
      Memory.requests_only_renumber  all of this for any requests

  WHAT IS NOT SAID.  Which of two orders gives which numbers.
-/
import FacetIndex.Proofs.AssociationRecords
import FacetIndex.Proofs.Growth
import FacetIndex.Proofs.Numbering

set_option autoImplicit false

namespace FacetIndex.Memory

/-! ## One request -/

/-- Requests in a row are answered with the ordinals that the labels have in the end. -/
theorem from_addCategories (ls : List Label) (m : Memory) :
    (ls.mapM taxonomy.addCategory).from m =
      (.ok (ls.map (m.addAll ls).ordinalOf), m.addAll ls) := by
  have hall := from_mapM taxonomy.addCategory (fun l => [l]) (fun l m => m.ordinalOf l)
    (fun l m => from_addCategory m l)
    (fun l _ _ hhas hle => hle.ordinalOf_eq (hhas l List.mem_cons_self)) ls m
  rwa [List.flatMap_singleton'] at hall

theorem Extends.ordinal?_eq {m m' : Memory} (h : m.Extends m') {l : Label} {o : Ordinal}
    (hl : m.ordinal? l = some o) : m'.ordinal? l = some o := by
  obtain ⟨hhas, rfl⟩ := ordinal?_eq_some_iff.1 hl
  exact ordinal?_eq_some_iff.2 ⟨hhas.of_extends h, h.ordinalOf_eq hhas⟩

theorem exists_ordinal?_iff (m : Memory) (l : Label) : (∃ o, m.ordinal? l = some o) ↔ m.Has l := by
  simp only [ordinal?_eq_some_iff, exists_and_left, exists_eq', and_true]

/-- An ordinal in use, that of the root included, keeps its parent. -/
theorem Extends.parentOf_eq_of_lt_size {m m' : Memory} (h : m.Extends m') {o : Ordinal}
    (ho : o.toInt < m.size) : m'.parentOf o = m.parentOf o := by
  refine h.parentOf_eq ?_
  by_cases hpos : 1 ≤ o.toInt
  · exact Or.inr ((exists_label?_iff m o).2 ⟨hpos, ho⟩)
  · refine Or.inl (Int32.le_iff_toInt_le.2 ?_)
    rw [Int32.toInt_zero]
    omega

/-- What a category in use starts with has been added with it. -/
theorem add_of_ancestor {m : Memory} {l k : Label} {len : Nat} (hk : m.Has k)
    (hl : k.ancestor? len = some l) : m.add l = m := by
  obtain ⟨n, _, _, rfl⟩ := Label.ancestor?_eq_some_iff.1 hl
  exact add_of_has (hk.cut n)

/-! ## The categories after some requests -/

/-- A new taxonomy has exactly what the labels that it was asked for start with. -/
theorem has_addAll_empty_iff (ls : List Label) (k : Label) :
    (addAll {} ls).Has k ↔ ∃ l ∈ ls, ∃ len, l.ancestor? len = some k := by
  have hempty : ¬ ({} : Memory).Has k := by
    rintro ⟨place, hplace⟩
    cases hplace
  rw [has_addAll_iff, or_iff_right hempty]
  refine exists_congr fun l => and_congr Iff.rfl ⟨?_, ?_⟩
  · rintro ⟨n, rfl⟩
    refine ⟨min n l.path.length + 1, Label.ancestor?_eq_some_iff.2 ⟨_, rfl, by omega, ?_⟩⟩
    exact Label.ext_path rfl (by rw [Label.path_cut, Label.path_cut, ← List.take_eq_take_min])
  · rintro ⟨len, hlen⟩
    obtain ⟨n, _, _, hcut⟩ := Label.ancestor?_eq_some_iff.1 hlen
    exact ⟨n, hcut⟩

/-- The ordinals in use are that of the root and one for each category. -/
theorem size_eq_one_add_ncard (m : Memory) : m.size = 1 + {l | m.Has l}.ncard := by
  have hset : {l | m.Has l} = (m.labels.toList.toFinset : Set Label) := by
    ext l
    rw [Set.mem_ofPred_eq, Finset.mem_coe, List.mem_toFinset, Array.mem_toList_iff, has_iff_mem]
  rw [hset, Set.ncard_coe_finset, List.toFinset_card_of_nodup m.nodup_labels, Array.length_toList,
    size, Nat.add_comm]

theorem size_addAll_empty (ls : List Label) :
    (addAll {} ls).size = 1 + {k | ∃ l ∈ ls, ∃ len, l.ancestor? len = some k}.ncard := by
  rw [size_eq_one_add_ncard]
  exact congrArg (1 + Set.ncard ·) (Set.ext (has_addAll_empty_iff ls))

/-! ## Renumbering -/

/-- The ordinal that the other taxonomy has for the label of an ordinal.  Where there is no label,
at the root for instance, the ordinal stays. -/
def renumber (m m' : Memory) (o : Ordinal) : Ordinal :=
  match m.label? o with
  | some l => m'.ordinalOf l
  | none => o

theorem renumber_of_label? {m : Memory} {o : Ordinal} {l : Label} (h : m.label? o = some l)
    (m' : Memory) : m.renumber m' o = m'.ordinalOf l := by
  rw [renumber, h]

theorem renumber_of_label?_eq_none {m : Memory} {o : Ordinal} (h : m.label? o = none)
    (m' : Memory) : m.renumber m' o = o := by
  rw [renumber, h]

theorem renumber_of_ordinal? {m m' : Memory} (hm : m.Fits) {l : Label} {o o' : Ordinal}
    (ho : m.ordinal? l = some o) (ho' : m'.ordinal? l = some o') : m.renumber m' o = o' := by
  obtain ⟨hl, rfl⟩ := ordinal?_eq_some_iff.1 ho
  rw [renumber_of_label? (label?_ordinalOf hm hl)]
  exact (ordinal?_eq_some_iff.1 ho').2

section SameCategories

variable {m m' : Memory} (hsame : ∀ l, m.Has l ↔ m'.Has l)
include hsame

/-- Taxonomies with the same categories use the same ordinals. -/
theorem label?_eq_none_iff_of_same (o : Ordinal) : m.label? o = none ↔ m'.label? o = none := by
  have hsize : m.size = m'.size := congrArg (· + 1) (size_labels_eq hsame)
  rw [Option.eq_none_iff_forall_ne_some, Option.eq_none_iff_forall_ne_some, ← not_exists,
    ← not_exists, exists_label?_iff, exists_label?_iff, hsize]

variable (hm' : m'.Fits)
include hm'

theorem renumber_renumber (o : Ordinal) : m'.renumber m (m.renumber m' o) = o := by
  cases hl : m.label? o with
  | none =>
    rw [renumber_of_label?_eq_none hl,
      renumber_of_label?_eq_none ((label?_eq_none_iff_of_same hsame o).1 hl)]
  | some l =>
    have hhas : m'.Has l := (hsame l).1 (has_of_label? hl)
    rw [renumber_of_label? hl, renumber_of_label? (label?_ordinalOf hm' hhas)]
    exact (ordinal?_eq_some_iff.1 (ordinal?_eq_some_of_label? hl)).2

/-- A parent is renumbered to the parent. -/
theorem parentOf_renumber (hm : m.Fits) (o : Ordinal) :
    m'.parentOf (m.renumber m' o) = m.renumber m' (m.parentOf o) := by
  cases hl : m.label? o with
  | none =>
    rw [renumber_of_label?_eq_none hl, parentOf_of_label?_eq_none hl,
      parentOf_of_label?_eq_none ((label?_eq_none_iff_of_same hsame o).1 hl)]
    rfl
  | some l =>
    have hhas : m.Has l := has_of_label? hl
    rw [renumber_of_label? hl, parentOf_of_label? (label?_ordinalOf hm' ((hsame l).1 hhas)),
      parentOf_of_label? hl]
    cases hp : l.parent? with
    | none =>
      simp only [ordinalAbove, hp]
      rfl
    | some p =>
      simp only [ordinalAbove, hp]
      exact (renumber_of_label? (label?_ordinalOf hm (hhas.parent hp)) m').symm

end SameCategories

/-- A request, of whatever label and whatever was asked before, changes no ordinal, label or parent;
its answer is the ordinal of the label from then on; and if the label is what a category in use
starts with, nothing is added.  Two new taxonomies that are asked for the same labels, in any order
and any number of times, have the same categories in the end, which are what these labels start
with, and the renumbering from one to the other is one to one and takes parents to parents. -/
theorem requests_only_renumber :
    (∀ (m : Memory) (l : Label), ∃ o m', (taxonomy.addCategory l).from m = (.ok o, m') ∧
      (∀ k p, m.ordinal? k = some p → m'.ordinal? k = some p) ∧
      (∀ p k, m.label? p = some k → m'.label? p = some k) ∧
      (∀ p : Ordinal, p.toInt < m.size → m'.parentOf p = m.parentOf p) ∧
      (∀ ls : List Label, ((ls.mapM taxonomy.addCategory).from m').2.ordinal? l = some o) ∧
      ((∃ k p len, m.ordinal? k = some p ∧ k.ancestor? len = some l) → m' = m)) ∧
    ∀ ls ls' : List Label, (∀ l, l ∈ ls ↔ l ∈ ls') → ∀ os os' m m',
      (ls.mapM taxonomy.addCategory).from {} = (.ok os, m) →
      (ls'.mapM taxonomy.addCategory).from {} = (.ok os', m') → m.size ≤ 2 ^ 31 →
      let labels := {k | ∃ l ∈ ls, ∃ len, l.ancestor? len = some k}
      (∀ k, (∃ o, m.ordinal? k = some o) ↔ k ∈ labels) ∧
      (∀ k, (∃ o, m'.ordinal? k = some o) ↔ k ∈ labels) ∧
      m.size = 1 + labels.ncard ∧ m'.size = 1 + labels.ncard ∧
      (∀ k o o', m.ordinal? k = some o → m'.ordinal? k = some o' → m.renumber m' o = o') ∧
      (∀ o, m'.renumber m (m.renumber m' o) = o) ∧
      ∀ o, m'.parentOf (m.renumber m' o) = m.renumber m' (m.parentOf o) := by
  constructor
  · intro m l
    have hle := m.extends_add l
    refine ⟨_, _, from_addCategory m l, fun k p => hle.ordinal?_eq, fun p k => hle.label?_eq,
      fun p => hle.parentOf_eq_of_lt_size, fun ls => ?_, ?_⟩
    · rw [from_addCategories]
      exact (extends_addAll _ ls).ordinal?_eq (ordinal?_eq_some_iff.2 ⟨m.has_add l, rfl⟩)
    · rintro ⟨k, p, len, hk, hl⟩
      exact add_of_ancestor (ordinal?_eq_some_iff.1 hk).1 hl
  · intro ls ls' hls os os' m m' hrun hrun' hsize
    cases (from_addCategories ls {}).symm.trans hrun
    cases (from_addCategories ls' {}).symm.trans hrun'
    have hsame := has_addAll_congr (m := {}) hls
    have hcount := size_addAll_empty ls
    have hm : (addAll {} ls).Fits := fits_iff_size_le.2 hsize
    have hm' : (addAll {} ls').Fits := by rwa [Fits, ← size_labels_eq hsame]
    refine ⟨fun k => ?_, fun k => ?_, hcount, ?_, fun k o o' => renumber_of_ordinal? hm,
      renumber_renumber hsame hm', parentOf_renumber hsame hm' hm⟩
    · exact (exists_ordinal?_iff _ k).trans (has_addAll_empty_iff ls k)
    · exact (exists_ordinal?_iff _ k).trans ((hsame k).symm.trans (has_addAll_empty_iff ls k))
    · rw [← hcount, size, size, size_labels_eq hsame]

/-- A cove of a fjord, the fjord, and an epoch. -/
def fjordAndEpoch : List Label := [
  ⟨"Water", ["Fjord", "Cove"], by decide, by decide⟩,
  ⟨"Water", ["Fjord"], by decide, by decide⟩,
  ⟨"Epoch", ["Bronze"], by decide, by decide⟩]

/-- The epoch comes first and again at the end, and the fjord before its cove: the cove had the
ordinal 3 and now has 5. -/
theorem requests_only_renumber_fjordAndEpoch :
    ∃ os os' m m',
      (fjordAndEpoch.mapM taxonomy.addCategory).from {} = (.ok os, m) ∧
      ((fjordAndEpoch.reverse ++ fjordAndEpoch.drop 2).mapM taxonomy.addCategory).from {} =
        (.ok os', m') ∧
      os = [3, 2, 5] ∧ os' = [2, 4, 5, 2] ∧ m.size = m'.size ∧ m.renumber m' 3 = 5 ∧
      m'.renumber m 5 = 3 ∧ m'.parentOf 5 = m.renumber m' (m.parentOf 3) := by
  have hrun := from_addCategories fjordAndEpoch {}
  have hrun' := from_addCategories (fjordAndEpoch.reverse ++ fjordAndEpoch.drop 2) {}
  have hls : ∀ l, l ∈ fjordAndEpoch ↔ l ∈ fjordAndEpoch.reverse ++ fjordAndEpoch.drop 2 := by
    intro l
    rw [List.mem_append, List.mem_reverse]
    exact ⟨Or.inl, fun h => h.elim id List.mem_of_mem_drop⟩
  have hsize : (addAll {} fjordAndEpoch).size = 6 := by decide +kernel
  have hle : (addAll {} fjordAndEpoch).size ≤ 2 ^ 31 := by rw [hsize]; decide
  obtain ⟨_, _, hcount, hcount', _, hback, hparent⟩ :=
    requests_only_renumber.2 _ _ hls _ _ _ _ hrun hrun' hle
  have hthree : (addAll {} fjordAndEpoch).renumber
      (addAll {} (fjordAndEpoch.reverse ++ fjordAndEpoch.drop 2)) 3 = 5 := by
    decide +kernel
  have hfive := hback 3
  have habove := hparent 3
  rw [hthree] at hfive habove
  exact ⟨_, _, _, _, hrun, hrun', by decide +kernel, by decide +kernel, hcount.trans hcount'.symm,
    hthree, hfive, habove⟩

end FacetIndex.Memory
