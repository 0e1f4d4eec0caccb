/-
  Proofs/Refusal.lean --- a refused document leaves nothing behind.

  WHAT THIS FILE IS FOR.  A document breaks a rule of the indexer or it does not,
  and that is found out before the taxonomy is asked anything.  Resolving an
  admitted document may still fail, but never because of a rule, unless the taxonomy
  itself reports one.  So whoever goes on after a document that was refused goes on
  from where it was.

  WHAT IS PROVED.

      Taxonomy.ReportsNoRule.memoised    a memo reports no rule of its own
      Taxonomy.ReportsNoRule.resolve     and resolving a document does not either
      Memory.reportsNoRule               taxonomies in memory are of this sort
      Indexer.unchanged_of_build_refused
                                         a refused document leaves the indexer and
                                         the taxonomy as they were
      Indexer.examine_of_build_refused   and the violation that is reported was
                                         found before any question

  WHAT IS NOT SAID.  Which documents are refused: `Proofs/Admission.lean`.
-/
import FacetIndex.Proofs.Indexer
import FacetIndex.Proofs.Memory
import FacetIndex.Proofs.Steadiness

set_option autoImplicit false

namespace FacetIndex

variable {σ α β : Type}

namespace Ask

/-- However it fails, no rule is broken. -/
def BreaksNoRule (c : Ask σ α) : Prop :=
  ∀ s e s', c.from s = (.error e, s') → e.isValidation = false

namespace BreaksNoRule

theorem of_pure (x : α) : (pure x : Ask σ α).BreaksNoRule := by
  intro s e s' h
  cases h

theorem of_throw {e : Error} (he : e.isValidation = false) :
    (throw e : Ask σ α).BreaksNoRule := by
  intro s e' s' h
  cases h
  exact he

theorem bind {c : Ask σ α} {f : α → Ask σ β} (hc : c.BreaksNoRule)
    (hf : ∀ x, (f x).BreaksNoRule) : (c >>= f).BreaksNoRule := by
  intro s e s' h
  rw [from_bind] at h
  rcases hfirst : c.from s with ⟨result, s₁⟩
  rw [hfirst] at h
  cases result with
  | ok x => exact hf x _ _ _ h
  | error e' =>
    cases h
    exact hc _ _ _ hfirst

theorem mapM {f : α → Ask σ β} (hf : ∀ x, (f x).BreaksNoRule) (xs : List α) :
    (xs.mapM f).BreaksNoRule := by
  induction xs with
  | nil => exact of_pure []
  | cons x xs ih =>
    rw [List.mapM_cons]
    exact (hf x).bind fun y => ih.bind fun ys => of_pure (y :: ys)

end BreaksNoRule

end Ask

theorem OrdinalSet.isValidation_of_encode {os : List Ordinal} {e : Error}
    (h : encode os = .error e) : e.isValidation = false := by
  unfold encode at h
  split at h
  · cases h
  · split at h
    · cases h
      rfl
    · cases h

namespace Taxonomy

open Ask (BreaksNoRule)

/-- No question is answered by a rule that is broken. -/
def ReportsNoRule (t : Taxonomy σ) : Prop := ∀ q, (t.ask q).BreaksNoRule

variable {t : Taxonomy σ}

theorem ReportsNoRule.memoised (ht : t.ReportsNoRule) : t.memoised.ReportsNoRule := by
  intro q s s' e h
  obtain ⟨s, memo⟩ := s
  cases hfind : memo.find? q with
  | some o =>
    rw [t.from_ask_memoised_of_some hfind] at h
    cases h
  | none =>
    rw [t.from_ask_memoised_of_none hfind] at h
    rcases hask : (t.ask q).from s with ⟨result, s₁⟩
    rw [hask] at h
    cases result with
    | ok o => cases h
    | error e' =>
      cases h
      exact ht q _ _ _ hask

namespace ReportsNoRule

variable (ht : t.ReportsNoRule)
include ht

theorem ancestors (steps : Nat) (o : Ordinal) : (t.ancestors steps o).BreaksNoRule := by
  induction steps generalizing o with
  | zero => exact .of_throw rfl
  | succ steps ih =>
    refine (ht (.parent o)).bind fun parent => ?_
    split
    · exact (ih parent).bind fun further => .of_pure _
    · exact .of_pure []

theorem ordinalsOf (settings : Dimension.Settings) (l : Label) :
    (t.ordinalsOf settings l).BreaksNoRule := by
  refine (ht (.category l)).bind fun ordinal => ?_
  split
  · exact (ht.ancestors _ ordinal).bind fun above => .of_pure _
  · exact .of_pure [ordinal]

theorem categoryBlob (store : Dimension.Store) (labels : List Label) :
    (t.categoryBlob store labels).BreaksNoRule := by
  refine (BreaksNoRule.mapM (fun l => ht.ordinalsOf _ l) labels).bind fun ordinals => ?_
  split
  next blob _ => exact .of_pure blob
  next e hencode => exact .of_throw (OrdinalSet.isValidation_of_encode hencode)

theorem associationBlob (values : List (Label × Association.Value)) :
    (t.associationBlob values).BreaksNoRule := by
  refine (BreaksNoRule.mapM (fun v => ?_) values).bind fun records => .of_pure _
  exact (ht (.category v.1)).bind fun o => .of_pure _

/-- Resolving a document breaks no rule. -/
theorem resolve (store : Dimension.Store) (d : Document) :
    (t.resolve store d).BreaksNoRule := by
  refine (BreaksNoRule.mapM (fun group => ?_) _).bind fun categoryBlobs => ?_
  · exact (ht.categoryBlob store group.2).bind fun blob => .of_pure _
  refine (BreaksNoRule.mapM (fun group => ?_) _).bind fun associationBlobs => .of_pure _
  exact (ht.associationBlob group.2).bind fun blob => .of_pure _

end ReportsNoRule

end Taxonomy

theorem Memory.reportsNoRule : taxonomy.ReportsNoRule := by
  intro q m e m' h
  cases q with
  | category l => cases (from_addCategory m l).symm.trans h
  | parent o => cases (from_parentOf m o).symm.trans h

/-- A document that breaks a rule is refused and leaves the indexer and the taxonomy as they were.
-/
theorem Indexer.unchanged_of_build_refused {ix ix' : Indexer} {t : Taxonomy σ} {s s' : σ}
    {d : Document} {e : Error} (ht : t.ReportsNoRule)
    (h : ix.build t s d = (.error e, ix', s')) (he : e.isValidation = true) :
    ix' = ix ∧ s' = s := by
  obtain ⟨violation, _, hbuild⟩ | ⟨kinds, s₁, memo, _, hresolve⟩ := ix.build_cases t s d
  · cases hbuild.symm.trans h
    exact ⟨rfl, rfl⟩
  · obtain ⟨e', hresolve, hbuild⟩ | ⟨added, _, hbuild⟩ := hresolve
    · cases hbuild.symm.trans h
      rw [ht.memoised.resolve ix.settings d _ _ _ hresolve] at he
      cases he
    · cases hbuild.symm.trans h

/-- The violation that is reported was found before the taxonomy was asked. -/
theorem Indexer.examine_of_build_refused {ix ix' : Indexer} {t : Taxonomy σ} {s s' : σ}
    {d : Document} {violation : Violation} (ht : t.ReportsNoRule)
    (h : ix.build t s d = (.error (.validation violation), ix', s')) :
    d.examine ix.settings ix.kinds = .error violation := by
  obtain ⟨v, hexamine, hbuild⟩ | ⟨kinds, s₁, memo, _, hresolve⟩ := ix.build_cases t s d
  · cases hbuild.symm.trans h
    exact hexamine
  · obtain ⟨e, hresolve, hbuild⟩ | ⟨added, _, hbuild⟩ := hresolve
    · cases hbuild.symm.trans h
      have hother := ht.memoised.resolve ix.settings d _ _ _ hresolve
      cases hother
    · cases hbuild.symm.trans h

end FacetIndex
