/-
  Proofs/Dialogue.lean --- resolution as a dialogue.

  WHAT THIS FILE IS FOR.  Resolving a document is a conversation with the
  taxonomy: a question, the answer to it, the next question.  A `Dialogue` is that
  conversation before any taxonomy takes part in it, a tree that branches over the
  answers.  What has to be shown of all taxonomies, or of two of them side by side,
  is then one induction over the questions.

  WHAT IS PROVED.

      Ask.from_bind_eq_ok_iff   two computations in a row succeed when each of
                                them does
      Dialogue.run_bind, Dialogue.run_each
                                holding a dialogue with a taxonomy respects the
                                ways in which dialogues are put together
      Dialogue.run_resolve      every taxonomy resolves a document by holding the
                                dialogue of the document

  WHAT IS NOT SAID.  A dialogue has no memo.  A build puts one in front of the
  taxonomy, and what becomes of the dialogue there is in `Proofs/Course.lean`.
-/
import Mathlib
import FacetIndex.Indexer

set_option autoImplicit false

namespace FacetIndex

/-! ## Running questions -/

namespace Ask

variable {σ α β : Type}

@[simp] theorem from_pure (x : α) (s : σ) : (pure x : Ask σ α).from s = (.ok x, s) := rfl

/-- What comes second starts from the state that the first leaves, and a failure ends both. -/
theorem from_bind (a : Ask σ α) (f : α → Ask σ β) (s : σ) :
    (a >>= f).from s =
      match a.from s with
      | (.ok x, s') => (f x).from s'
      | (.error e, s') => (.error e, s') := by
  change ExceptT.bindCont f (a s).1 (a s).2 = _
  unfold Ask.from
  rcases h : a.run.run s with ⟨result, s'⟩
  rw [show a s = (result, s') from h]
  cases result with
  | ok x => rfl
  | error e => rfl

theorem from_bind_of_ok {a : Ask σ α} {f : α → Ask σ β} {s s' : σ} {x : α}
    (h : a.from s = (.ok x, s')) : (a >>= f).from s = (f x).from s' := by
  rw [from_bind, h]

/-- Two computations in a row succeed when each of them does. -/
theorem from_bind_eq_ok_iff {a : Ask σ α} {f : α → Ask σ β} {s s'' : σ} {y : β} :
    (a >>= f).from s = (.ok y, s'') ↔
      ∃ x s', a.from s = (.ok x, s') ∧ (f x).from s' = (.ok y, s'') := by
  rw [from_bind]
  rcases a.from s with ⟨result, s'⟩
  cases result with
  | ok x =>
    constructor
    · intro h
      exact ⟨x, s', rfl, h⟩
    · rintro ⟨_, _, ⟨⟩, h⟩
      exact h
  | error e => simp

end Ask

/-! ## Dialogues -/

/-- A conversation with a taxonomy that is still to be held. -/
inductive Dialogue (α : Type) where
  /-- Nothing is left to ask. -/
  | done (result : Except Error α)
  /-- A question, and how to go on with the answer. -/
  | ask (question : Question) (next : Ordinal → Dialogue α)

namespace Dialogue

variable {σ α β : Type}

/-- Goes on with the result of a dialogue. -/
def bind : Dialogue α → (α → Dialogue β) → Dialogue β
  | done (.error e), _ => done (.error e)
  | done (.ok x), f => f x
  | ask q next, f => ask q fun o => (next o).bind f

/-- The same dialogue about each element of a list, from left to right. -/
def each (f : α → Dialogue β) : List α → Dialogue (List β)
  | [] => done (.ok [])
  | x :: xs => (f x).bind fun y => (each f xs).bind fun ys => done (.ok (y :: ys))

/-- Holds a dialogue with a taxonomy.  The first failure ends it. -/
def run (t : Taxonomy σ) : Dialogue α → Ask σ α
  | done result => fun s => (result, s)
  | ask q next => do
      let o ← t.ask q
      (next o).run t

@[simp] theorem from_run_done (t : Taxonomy σ) (result : Except Error α) (s : σ) :
    ((done result).run t).from s = (result, s) := rfl

theorem run_ask (t : Taxonomy σ) (q : Question) (next : Ordinal → Dialogue α) :
    (ask q next).run t = t.ask q >>= fun o => (next o).run t := rfl

theorem from_run_ask_of_ok {t : Taxonomy σ} {q : Question} {s s' : σ} {o : Ordinal}
    (h : (t.ask q).from s = (.ok o, s')) (next : Ordinal → Dialogue α) :
    ((ask q next).run t).from s = ((next o).run t).from s' :=
  Ask.from_bind_of_ok h

theorem from_run_ask_of_error {t : Taxonomy σ} {q : Question} {s s' : σ} {e : Error}
    (h : (t.ask q).from s = (.error e, s')) (next : Ordinal → Dialogue α) :
    ((ask q next).run t).from s = (.error e, s') := by
  rw [run_ask, Ask.from_bind, h]

theorem run_bind (t : Taxonomy σ) (d : Dialogue α) (f : α → Dialogue β) :
    (d.bind f).run t = d.run t >>= fun x => (f x).run t := by
  induction d with
  | done result =>
    cases result with
    | ok x => exact (pure_bind x fun x => (f x).run t).symm
    | error e => rfl
  | ask q next ih =>
    rw [bind, run_ask, run_ask, bind_assoc]
    exact congrArg (t.ask q >>= ·) (funext ih)

theorem run_each (t : Taxonomy σ) (f : α → Dialogue β) (xs : List α) :
    (each f xs).run t = xs.mapM fun x => (f x).run t := by
  induction xs with
  | nil => rfl
  | cons x xs ih =>
    rw [each, run_bind, List.mapM_cons]
    refine congrArg ((f x).run t >>= ·) (funext fun y => ?_)
    rw [run_bind, ih]
    rfl

/-! ## The dialogue of a document -/

/-- Asks for the ancestors of an ordinal, the nearest first. -/
def ancestors : (steps : Nat) → Ordinal → Dialogue (List Ordinal)
  | 0, o => done (.error (.endlessAncestry o))
  | steps + 1, o => ask (.parent o) fun parent =>
      if 0 < parent then
        (ancestors steps parent).bind fun further => done (.ok (parent :: further))
      else done (.ok [])

/-- Asks for the ordinals that stand for a category. -/
def ordinalsOf (settings : Dimension.Settings) (label : Label) : Dialogue (List Ordinal) :=
  ask (.category label) fun ordinal =>
    if settings.storesAncestors then
      (ancestors Taxonomy.ancestorSteps ordinal).bind fun above =>
        done (.ok (ordinal :: (if settings.requireCount then above else above.dropLast)))
    else done (.ok [ordinal])

/-- Asks for what the blob of some categories holds. -/
def categoryBlob (store : Dimension.Store) (labels : List Label) : Dialogue Bytes :=
  (each (fun label => ordinalsOf (store.get label.dimension) label) labels).bind fun ordinals =>
    done (OrdinalSet.encode ordinals.flatten)

/-- Asks for what the blob of some associations holds. -/
def associationBlob (values : List (Label × Association.Value)) : Dialogue Bytes :=
  (each (fun v => ask (.category v.1) fun o => done (.ok (Association.record o v.2)))
    values).bind fun records => done (.ok records.flatten)

/-- Asks for the blobs of groups that go to one field each. -/
def blobs (blob : α → Dialogue Bytes) (groups : List (String × α)) :
    Dialogue (List CountingField) :=
  each (fun group => (blob group.2).bind fun b => done (.ok ⟨group.1, .binary b⟩)) groups

end Dialogue

/-! ## The parts of an addition that need no ordinals -/

namespace Dimension.Store

/-- The terms that the facets of a document are resolved into. -/
def terms (store : Store) (d : Document) : List TextField :=
  (store.routeCategories d).flatMap (fun group => categoryTerms group.1 group.2)
    ++ (store.routeMembers d).flatMap fun group => memberTerms group.1 group.2

/-- The values for counting of the facets that need no taxonomy. -/
def memberFields (store : Store) (d : Document) : List CountingField :=
  (store.routeMembers d).flatMap fun group => memberValues group.1 group.2

/-- An addition with these blobs of categories and of associations. -/
def addition (store : Store) (d : Document) (categoryBlobs associationBlobs : List CountingField) :
    Addition :=
  ⟨store.terms d, categoryBlobs ++ store.memberFields d ++ associationBlobs⟩

end Dimension.Store

namespace Dialogue

variable {σ : Type}

/-- Asks for everything that the facets of a document are resolved into. -/
def resolve (store : Dimension.Store) (d : Document) : Dialogue Addition :=
  (blobs (categoryBlob store) (store.routeCategories d)).bind fun categoryBlobs =>
    (blobs associationBlob (store.routeAssociations d)).bind fun associationBlobs =>
      done (.ok (store.addition d categoryBlobs associationBlobs))

/-! ## Taxonomies hold the dialogue -/

theorem run_ancestors (t : Taxonomy σ) (steps : Nat) (o : Ordinal) :
    (ancestors steps o).run t = t.ancestors steps o := by
  induction steps generalizing o with
  | zero => rfl
  | succ steps ih =>
    rw [ancestors, Taxonomy.ancestors, run_ask]
    refine congrArg (t.parentOf o >>= ·) (funext fun parent => ?_)
    split
    · rw [run_bind, ih]
      rfl
    · rfl

theorem run_ordinalsOf (t : Taxonomy σ) (settings : Dimension.Settings) (label : Label) :
    (ordinalsOf settings label).run t = t.ordinalsOf settings label := by
  rw [ordinalsOf, Taxonomy.ordinalsOf, run_ask]
  refine congrArg (t.addCategory label >>= ·) (funext fun ordinal => ?_)
  split
  · rw [run_bind, run_ancestors]
    rfl
  · rfl

theorem run_categoryBlob (t : Taxonomy σ) (store : Dimension.Store) (labels : List Label) :
    (categoryBlob store labels).run t = t.categoryBlob store labels := by
  simp only [categoryBlob, Taxonomy.categoryBlob, run_bind, run_each, run_ordinalsOf]
  refine congrArg (_ >>= ·) (funext fun ordinals => ?_)
  cases OrdinalSet.encode ordinals.flatten with
  | ok blob => rfl
  | error e => rfl

theorem run_associationBlob (t : Taxonomy σ) (values : List (Label × Association.Value)) :
    (associationBlob values).run t = t.associationBlob values := by
  simp only [associationBlob, Taxonomy.associationBlob, run_bind, run_each]
  rfl

/-- Every taxonomy resolves a document by holding its dialogue. -/
theorem run_resolve (t : Taxonomy σ) (store : Dimension.Store) (d : Document) :
    (resolve store d).run t = t.resolve store d := by
  simp only [resolve, blobs, Taxonomy.resolve, run_bind, run_each, run_categoryBlob,
    run_associationBlob]
  rfl

end Dialogue

end FacetIndex
