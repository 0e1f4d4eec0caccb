/-
  Proofs/Exhaustion.lean --- only a full taxonomy fails.

  WHAT THIS FILE IS FOR.  A taxonomy in memory answers every question.  What can
  fail is what is made of the answers: a search for ancestors that is given up, or
  a set with a negative ordinal.  Both need more categories than there are positive
  ordinals.

  WHAT IS PROVED.

      Memory.FailsOnlyFull      a computation that fails leaves more categories
                                than there are ordinals; this is kept by sequences
      Memory.failsOnlyFull_resolve
                                resolving a document is one of these
      Indexer.not_fits_of_build_error
                                so a build that fails, other than for a rule,
                                leaves a taxonomy that is full

  WHAT IS NOT SAID.  That a full taxonomy does fail.  It may well go on giving
  ordinals that it has given before.
-/
import FacetIndex.Proofs.AssociationRecords
import FacetIndex.Proofs.Refusal

set_option autoImplicit false

namespace FacetIndex

namespace Memory

variable {α β : Type}

/-- However the computation fails, there are more categories than ordinals by then. -/
def FailsOnlyFull (c : Ask Memory α) : Prop :=
  ∀ m e m', c.from m = (.error e, m') → ¬ m'.Fits

namespace FailsOnlyFull

theorem of_pure (x : α) : FailsOnlyFull (pure x) := by
  intro m e m' h
  cases h

theorem bind {c : Ask Memory α} {f : α → Ask Memory β} (hc : FailsOnlyFull c)
    (hf : ∀ x, FailsOnlyFull (f x)) : FailsOnlyFull (c >>= f) := by
  intro m e m' h
  rw [Ask.from_bind] at h
  rcases hfirst : c.from m with ⟨result, m₁⟩
  rw [hfirst] at h
  cases result with
  | ok x => exact hf x m₁ e m' h
  | error e' =>
    cases h
    exact hc m e m' hfirst

theorem mapM {f : α → Ask Memory β} (hf : ∀ x, FailsOnlyFull (f x)) (xs : List α) :
    FailsOnlyFull (xs.mapM f) := by
  induction xs with
  | nil => exact of_pure []
  | cons x xs ih =>
    rw [List.mapM_cons]
    exact (hf x).bind fun y => ih.bind fun ys => of_pure (y :: ys)

end FailsOnlyFull

/-- Asking for ancestors adds nothing, even if they have no end. -/
theorem snd_from_ancestors (steps : Nat) (o : Ordinal) (m : Memory) :
    ((taxonomy.ancestors steps o).from m).2 = m := by
  induction steps generalizing o with
  | zero => rfl
  | succ steps ih =>
    rw [Taxonomy.ancestors, Ask.from_bind_of_ok (from_parentOf m o)]
    split
    · have hstate := ih (m.parentOf o)
      rw [Ask.from_bind]
      rcases hfurther : (taxonomy.ancestors steps (m.parentOf o)).from m with ⟨result, m'⟩
      rw [hfurther] at hstate
      cases result with
      | ok further => exact hstate
      | error e => exact hstate
    · rfl

theorem failsOnlyFull_ordinalsOf (settings : Dimension.Settings) (l : Label) :
    FailsOnlyFull (taxonomy.ordinalsOf settings l) := by
  intro m e m' h hfits
  have hstate : m' = m.addAll [l] := by
    rw [Taxonomy.ordinalsOf, Ask.from_bind_of_ok (from_addCategory m l)] at h
    split at h
    · have hkept := snd_from_ancestors Taxonomy.ancestorSteps ((m.add l).ordinalOf l) (m.add l)
      rw [Ask.from_bind] at h
      rcases habove : (taxonomy.ancestors Taxonomy.ancestorSteps
        ((m.add l).ordinalOf l)).from (m.add l) with ⟨result, m₁⟩
      rw [habove] at h hkept
      cases result with
      | ok above => cases h
      | error e' =>
        cases h
        exact hkept
    · cases h
  have hsuccess := (reads_ordinalsOf settings l).succeeds (hstate ▸ hfits)
  cases h.symm.trans hsuccess

theorem failsOnlyFull_categoryBlob (store : Dimension.Store) (labels : List Label) :
    FailsOnlyFull (taxonomy.categoryBlob store labels) := by
  intro m e m' h hfits
  have hplain := h
  rw [Taxonomy.categoryBlob, Ask.from_bind] at h
  rcases hall : (labels.mapM fun l =>
    taxonomy.ordinalsOf (store.get l.dimension) l).from m with ⟨result, m₁⟩
  rw [hall] at h
  cases result with
  | error e' =>
    cases h
    exact FailsOnlyFull.mapM (fun l => failsOnlyFull_ordinalsOf _ l) labels m e m' hall hfits
  | ok ordinals =>
    have hreads := Reads.mapM (fun l => reads_ordinalsOf (store.get l.dimension) l) labels
    have hadds := hreads.adds hall
    rw [List.flatMap_singleton'] at hadds
    have hstate : m' = m₁ := by
      dsimp only at h
      split at h
      · cases h
      · cases h
        rfl
    rw [hstate, hadds] at hfits
    cases hplain.symm.trans ((reads_categoryBlob store labels).succeeds hfits)

theorem failsOnlyFull_resolve (store : Dimension.Store) (d : Document) :
    FailsOnlyFull (taxonomy.resolve store d) := by
  refine (FailsOnlyFull.mapM (fun group => ?_) _).bind fun categoryBlobs => ?_
  · exact (failsOnlyFull_categoryBlob store group.2).bind fun blob => .of_pure _
  refine (FailsOnlyFull.mapM (fun group => ?_) _).bind fun associationBlobs => .of_pure _
  refine FailsOnlyFull.bind ?_ fun blob => .of_pure _
  intro m e m' h
  cases (from_associationBlob group.2 m).symm.trans h

end Memory

/-- A document that is neither built nor refused for a rule leaves more categories than there are
ordinals. -/
theorem Indexer.not_fits_of_build_error {ix ix' : Indexer} {m m' : Memory} {d : Document}
    {e : Error} (h : ix.build Memory.taxonomy m d = (.error e, ix', m'))
    (he : e.isValidation = false) : ¬ m'.Fits := by
  obtain ⟨violation, _, hbuild⟩ | ⟨kinds, m₁, memo, _, hresolve⟩ :=
    ix.build_cases Memory.taxonomy m d
  · cases hbuild.symm.trans h
    cases he
  · obtain ⟨e', hresolve, hbuild⟩ | ⟨added, _, hbuild⟩ := hresolve
    · cases hbuild.symm.trans h
      exact Memory.failsOnlyFull_resolve ix.settings d m e m'
        (Memory.steady.from_resolve_of_memoised hresolve)
    · cases hbuild.symm.trans h

end FacetIndex
