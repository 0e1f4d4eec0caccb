import Std.Data.TreeMap
import FacetIndex.Label
import FacetIndex.Ordinal

set_option autoImplicit false

/-!
# Taxonomies

A taxonomy gives every category an ordinal and knows the parent of every ordinal.  The indexer asks
it two questions and never makes up an ordinal of its own.  A question may fail, and it may change
the taxonomy: asking for the ordinal of a new category creates it.

A taxonomy is given by how it answers, over a state of any type, so that one taxonomy can be made
from another: `recording` keeps a list of questions and answers, and `memoised` asks no question
twice.
-/

namespace FacetIndex

/-- A computation that may fail and that works on a state; a failure keeps the state it leaves. -/
abbrev Ask (σ : Type) : Type → Type := ExceptT Error (StateM σ)

/-- Runs a computation from a state. -/
def Ask.from {σ α : Type} (s : σ) (a : Ask σ α) : Except Error α × σ := a.run.run s

/-- How a taxonomy with states of type `σ` answers. -/
structure Taxonomy (σ : Type) where
  /-- The ordinal of a category, which is created if it is new. -/
  addCategory : Label → Ask σ Ordinal
  /-- The parent of an ordinal; one that is not positive is no category. -/
  parentOf : Ordinal → Ask σ Ordinal

/-- A question to a taxonomy. -/
inductive Question where
  /-- Which ordinal does this category have? -/
  | category (label : Label)
  /-- Which parent does this ordinal have? -/
  | parent (ordinal : Ordinal)
  deriving DecidableEq, Repr

/-- A question that was asked, with its answer. -/
structure Exchange where
  /-- The question. -/
  question : Question
  /-- The ordinal, or why there is none. -/
  answer : Except Error Ordinal

/-- The answers to questions that were asked before. -/
structure Memo where
  /-- Categories with their ordinals. -/
  categories : Std.TreeMap Label Ordinal := ∅
  /-- Ordinals with their parents. -/
  parents : Std.TreeMap Ordinal Ordinal := ∅

namespace Taxonomy

variable {σ : Type}

/-- Asks a question. -/
def ask (t : Taxonomy σ) : Question → Ask σ Ordinal
  | .category label => t.addCategory label
  | .parent ordinal => t.parentOf ordinal

/-- The taxonomy whose answers do not depend on earlier questions. -/
def fixed (category : Label → Except Error Ordinal) (parent : Ordinal → Except Error Ordinal) :
    Taxonomy σ where
  addCategory label := ExceptT.mk (pure (category label))
  parentOf ordinal := ExceptT.mk (pure (parent ordinal))

/-- Stands where there is no taxonomy: every question fails. -/
def missing : Taxonomy σ :=
  fixed (fun _ => .error (.configuration .missingTaxonomy))
    (fun _ => .error (.configuration .missingTaxonomy))

/-- Asks a question and notes it with its answer. -/
def note (t : Taxonomy σ) (q : Question) : Ask (σ × List Exchange) Ordinal :=
  fun (s, log) =>
    match (t.ask q).from s with
    | (answer, s') => (answer, s', log ++ [⟨q, answer⟩])

/-- The same taxonomy, which also keeps what it was asked, in the order in which it was asked. -/
def recording (t : Taxonomy σ) : Taxonomy (σ × List Exchange) where
  addCategory label := t.note (.category label)
  parentOf ordinal := t.note (.parent ordinal)

/-- Asks a question whose answer is not known, and remembers the answer unless it is a failure. -/
def learn (question : Ask σ Ordinal) (remember : Memo → Ordinal → Memo) :
    Ask (σ × Memo) Ordinal :=
  fun (s, memo) =>
    match question.from s with
    | (.ok o, s') => (.ok o, s', remember memo o)
    | (.error e, s') => (.error e, s', memo)

/-- The same taxonomy, which is asked each question at most once. -/
def memoised (t : Taxonomy σ) : Taxonomy (σ × Memo) where
  addCategory label := fun (s, memo) =>
    match memo.categories[label]? with
    | some o => (.ok o, s, memo)
    | none =>
        learn (t.addCategory label)
          (fun memo o => { memo with categories := memo.categories.insert label o }) (s, memo)
  parentOf ordinal := fun (s, memo) =>
    match memo.parents[ordinal]? with
    | some o => (.ok o, s, memo)
    | none =>
        learn (t.parentOf ordinal)
          (fun memo o => { memo with parents := memo.parents.insert ordinal o }) (s, memo)

end Taxonomy

end FacetIndex
