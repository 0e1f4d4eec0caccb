/-
  Proofs/Steadiness.lean --- a taxonomy in memory is steady.

  WHAT THIS FILE IS FOR.  A memo may stand for a taxonomy that is steady, and this
  one is.  The difficulty is with parents: the parent of an ordinal that is not in
  use changes when the ordinal comes into use.  The ordinals of categories, and those
  that never can be a category's, are `Memory.Known`, and for these every answer of a
  taxonomy in memory is final.

  WHAT IS PROVED.

      Memory.from_addCategory, Memory.from_parentOf
                                   what the two questions give, as equations
      Memory.Extends.parentOf_eq   a known ordinal keeps its parent
      Memory.extends_of_ask        a question only adds
      Memory.steady                what was answered once will always be answered so

  WHAT IS NOT SAID.  Nothing is assumed about room.  A full taxonomy is steady, too:
  it gives the same ordinal again, even if several categories have it.
-/
import FacetIndex.Proofs.Memoisation
import FacetIndex.Proofs.Memory

set_option autoImplicit false

namespace FacetIndex.Memory

/-- The ordinal of a category that is there, or one that never will be a category's. -/
def Known (m : Memory) (o : Ordinal) : Prop := o ≤ 0 ∨ ∃ l, m.label? o = some l

theorem from_addCategory (m : Memory) (l : Label) :
    (taxonomy.addCategory l).from m = (.ok ((m.add l).ordinalOf l), m.add l) := by
  rw [ordinalOf_of_getElem? (m.add_getElem?_place l)]
  rfl

theorem from_parentOf (m : Memory) (o : Ordinal) :
    (taxonomy.parentOf o).from m = (.ok (m.parentOf o), m) := rfl

theorem toNatClampNeg_ordinalAt_le (i : Nat) : (ordinalAt i).toNatClampNeg ≤ i + 1 := by
  rw [ordinalAt, Int32.toNatClampNeg, Int32.toInt_ofNat']
  unfold Int.bmod
  dsimp only [Int32.size]
  split <;> omega

theorem known_ordinalAt {m : Memory} {l : Label} {i : Nat} (h : m.labels[i]? = some l) :
    m.Known (ordinalAt i) := by
  by_cases hpos : 0 < ordinalAt i
  · have hi := lt_size_of_getElem? h
    have hle := toNatClampNeg_ordinalAt_le i
    right
    simp only [label?, if_pos hpos]
    exact exists_getElem? (by omega)
  · exact Or.inl (Int32.not_lt.1 hpos)

theorem has_of_label? {m : Memory} {o : Ordinal} {l : Label} (h : m.label? o = some l) :
    m.Has l := by
  unfold label? at h
  split at h
  · exact ⟨_, h⟩
  · cases h

theorem Has.parent {m : Memory} {l p : Label} (h : m.Has l) (hp : l.parent? = some p) :
    m.Has p := by
  obtain ⟨i, hi⟩ := h
  obtain ⟨j, _, hj⟩ := m.parent_before i l p hi hp
  exact ⟨j, hj⟩

theorem known_parentOf (m : Memory) (o : Ordinal) : m.Known (m.parentOf o) := by
  cases hl : m.label? o with
  | none =>
    rw [parentOf_of_label?_eq_none hl]
    exact Or.inl (by decide)
  | some l =>
    rw [parentOf_of_label? hl]
    cases hp : l.parent? with
    | none =>
      simp only [ordinalAbove, hp]
      exact Or.inl (by decide)
    | some p =>
      obtain ⟨j, hj⟩ := (has_of_label? hl).parent hp
      rw [ordinalAbove_of_getElem? hp ((m.index_iff p j).2 hj)]
      exact known_ordinalAt hj

theorem Extends.known {m m' : Memory} (h : m.Extends m') {o : Ordinal} (ho : m.Known o) :
    m'.Known o := by
  rcases ho with ho | ⟨l, hl⟩
  · exact Or.inl ho
  · exact Or.inr ⟨l, h.label?_eq hl⟩

/-- A known ordinal keeps its parent. -/
theorem Extends.parentOf_eq {m m' : Memory} (h : m.Extends m') {o : Ordinal} (ho : m.Known o) :
    m'.parentOf o = m.parentOf o := by
  rcases ho with ho | ⟨l, hl⟩
  · have hnone : ∀ k : Memory, k.label? o = none := fun k => if_neg (Int32.not_lt.2 ho)
    rw [parentOf_of_label?_eq_none (hnone m), parentOf_of_label?_eq_none (hnone m')]
  · rw [parentOf_of_label? hl, parentOf_of_label? (h.label?_eq hl)]
    cases hp : l.parent? with
    | none => simp only [ordinalAbove, hp]
    | some p =>
      obtain ⟨j, hj⟩ := (has_of_label? hl).parent hp
      rw [ordinalAbove_of_getElem? hp ((m.index_iff p j).2 hj),
        ordinalAbove_of_getElem? hp ((m'.index_iff p j).2 (h hj))]

theorem extends_of_ask {m m' : Memory} {q : Question} {r : Except Error Ordinal}
    (h : (taxonomy.ask q).from m = (r, m')) : m.Extends m' := by
  cases q with
  | category l =>
    cases (from_addCategory m l).symm.trans h
    exact m.extends_add l
  | parent o =>
    cases (from_parentOf m o).symm.trans h
    exact Extends.refl m

/-- What was answered once will always be answered so. -/
theorem steady : taxonomy.Steady Known where
  known_answer := by
    intro m m' q o _ h
    cases q with
    | category l =>
      cases (from_addCategory m l).symm.trans h
      rw [ordinalOf_of_getElem? (m.add_getElem?_place l)]
      exact known_ordinalAt (m.add_getElem?_place l)
    | parent p =>
      cases (from_parentOf m p).symm.trans h
      exact m.known_parentOf p
  known_kept := by
    intro m m' q r o ho h
    exact (extends_of_ask h).known ho
  settled_answer := by
    intro m m' q o _ h
    cases q with
    | category l =>
      cases (from_addCategory m l).symm.trans h
      have hagain := from_addCategory (m.add l) l
      rwa [add_of_has (m.has_add l)] at hagain
    | parent p =>
      cases (from_parentOf m p).symm.trans h
      exact from_parentOf m p
  settled_kept := by
    intro m m' q q' r o hq hsettled h
    have hle := extends_of_ask h
    cases q with
    | category l =>
      have heq := Prod.mk.inj ((from_addCategory m l).symm.trans hsettled)
      have hhas : m.Has l := heq.2 ▸ m.has_add l
      have hagain := from_addCategory m' l
      rw [add_of_has (hhas.of_extends hle), hle.ordinalOf_eq hhas] at hagain
      rw [add_of_has hhas] at heq
      exact hagain.trans (by rw [heq.1])
    | parent p =>
      have heq := Prod.mk.inj ((from_parentOf m p).symm.trans hsettled)
      have hagain := from_parentOf m' p
      rw [hle.parentOf_eq hq] at hagain
      exact hagain.trans (by rw [heq.1])

end FacetIndex.Memory
