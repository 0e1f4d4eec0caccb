/-
  Proofs/Course.lean --- how a dialogue goes behind a memo.

  WHAT THIS FILE IS FOR.  A build holds the dialogue of its document with a
  taxonomy that has a memo in front of it.  At each question there are three
  possibilities: the memo knows the answer, the taxonomy gives one, or the
  taxonomy fails.  `Dialogue.Course` has one case for each of them, and one for
  the end.  Everything that is said about builds over an arbitrary taxonomy is
  an induction over a course; the memo is looked into here and nowhere else.

  WHAT IS PROVED.

      Dialogue.exists_course           every dialogue has a course
      Dialogue.Course.from_run_memoised
      Dialogue.Course.from_run_recording_memoised
                                       the course is what running the dialogue
                                       gives, and its calls are the record
      Dialogue.Course.nodup_questions  no question is asked twice

  WHAT IS NOT SAID.  A course tells which questions reach the taxonomy and how
  they are answered.  Whether a remembered answer is the one that would be given
  now depends on the taxonomy: that is the matter of `Proofs/Memoisation.lean`.
-/
import FacetIndex.Proofs.Dialogue

set_option autoImplicit false

namespace FacetIndex

variable {σ α : Type}

/-! ## Looking into a memo -/

namespace Memo

/-- The remembered answer to a question. -/
def find? (memo : Memo) : Question → Option Ordinal
  | .category label => memo.categories[label]?
  | .parent ordinal => memo.parents[ordinal]?

/-- Remembers the answer to a question. -/
def learn (memo : Memo) : Question → Ordinal → Memo
  | .category label, o => { memo with categories := memo.categories.insert label o }
  | .parent ordinal, o => { memo with parents := memo.parents.insert ordinal o }

@[simp] theorem find?_empty (q : Question) : ({} : Memo).find? q = none := by
  cases q <;> simp [find?]

theorem find?_learn (memo : Memo) (q q' : Question) (o : Ordinal) :
    (memo.learn q o).find? q' = if q = q' then some o else memo.find? q' := by
  cases q <;> cases q' <;>
    simp [find?, learn, Std.TreeMap.getElem?_insert, Std.LawfulEqCmp.compare_eq_iff_eq]

theorem find?_empty_ne_some (q : Question) (o : Ordinal) : ({} : Memo).find? q ≠ some o := by
  simp

/-- An answer that is remembered was learnt just now or is remembered from before. -/
theorem eq_or_find?_of_learn {memo : Memo} {q q' : Question} {o o' : Ordinal}
    (h : (memo.learn q o).find? q' = some o') : q' = q ∧ o' = o ∨ memo.find? q' = some o' := by
  rw [find?_learn] at h
  split at h
  · rename_i heq
    exact .inl ⟨heq.symm, (Option.some.inj h).symm⟩
  · exact .inr h

end Memo

namespace Taxonomy

theorem from_ask_memoised_of_some (t : Taxonomy σ) {q : Question} {memo : Memo} {o : Ordinal}
    (h : memo.find? q = some o) (s : σ) :
    (t.memoised.ask q).from (s, memo) = (.ok o, s, memo) := by
  cases q with
  | category l =>
    have hknown : memo.categories[l]? = some o := h
    unfold ask memoised Ask.from ExceptT.run StateT.run
    simp only [hknown]
  | parent p =>
    have hknown : memo.parents[p]? = some o := h
    unfold ask memoised Ask.from ExceptT.run StateT.run
    simp only [hknown]

theorem from_ask_memoised_of_none (t : Taxonomy σ) {q : Question} {memo : Memo}
    (h : memo.find? q = none) (s : σ) :
    (t.memoised.ask q).from (s, memo) =
      match (t.ask q).from s with
      | (.ok o, s') => (.ok o, s', memo.learn q o)
      | (.error e, s') => (.error e, s', memo) := by
  cases q with
  | category l =>
    have hknown : memo.categories[l]? = none := h
    unfold ask memoised Ask.from ExceptT.run StateT.run
    simp only [hknown]
    rfl
  | parent p =>
    have hknown : memo.parents[p]? = none := h
    unfold ask memoised Ask.from ExceptT.run StateT.run
    simp only [hknown]
    rfl

variable {t : Taxonomy σ} {q : Question} {memo : Memo} {s s' : σ}

theorem from_ask_memoised_of_ok {o : Ordinal} (h : memo.find? q = none)
    (hask : (t.ask q).from s = (.ok o, s')) :
    (t.memoised.ask q).from (s, memo) = (.ok o, s', memo.learn q o) := by
  rw [t.from_ask_memoised_of_none h, hask]

theorem from_ask_memoised_of_error {e : Error} (h : memo.find? q = none)
    (hask : (t.ask q).from s = (.error e, s')) :
    (t.memoised.ask q).from (s, memo) = (.error e, s', memo) := by
  rw [t.from_ask_memoised_of_none h, hask]

/-- Keeping a record changes nothing else. -/
theorem from_ask_recording {answer : Except Error Ordinal}
    (hask : (t.ask q).from s = (answer, s')) (log : List Exchange) :
    (t.recording.ask q).from (s, log) = (answer, s', log ++ [⟨q, answer⟩]) := by
  have hnote : (t.recording.ask q).from (s, log) =
      (((t.ask q).from s).1, ((t.ask q).from s).2, log ++ [⟨q, ((t.ask q).from s).1⟩]) := by
    cases q <;> rfl
  rw [hnote, hask]

end Taxonomy

/-! ## Courses -/

namespace Dialogue

/-- How a dialogue goes that starts in a state and with a memo: the calls that reach the taxonomy,
the result, and the state and the memo behind it. -/
inductive Course (t : Taxonomy σ) :
    Dialogue α → σ → Memo → List Exchange → Except Error α → σ → Memo → Prop where
  /-- Nothing is left to ask. -/
  | done (result : Except Error α) (s : σ) (memo : Memo) :
      Course t (done result) s memo [] result s memo
  /-- The answer is remembered, and the taxonomy does not hear of the question. -/
  | known {q : Question} {next : Ordinal → Dialogue α} {s s' : σ} {memo memo' : Memo} {o : Ordinal}
      {calls : List Exchange} {result : Except Error α} (hfind : memo.find? q = some o)
      (rest : Course t (next o) s memo calls result s' memo') :
      Course t (ask q next) s memo calls result s' memo'
  /-- The taxonomy answers, and the answer is remembered from then on. -/
  | answered {q : Question} {next : Ordinal → Dialogue α} {s s₁ s' : σ} {memo memo' : Memo}
      {o : Ordinal} {calls : List Exchange} {result : Except Error α}
      (hfind : memo.find? q = none) (hask : (t.ask q).from s = (.ok o, s₁))
      (rest : Course t (next o) s₁ (memo.learn q o) calls result s' memo') :
      Course t (ask q next) s memo (⟨q, .ok o⟩ :: calls) result s' memo'
  /-- The taxonomy fails, and that ends the dialogue. -/
  | failed {q : Question} {next : Ordinal → Dialogue α} {s s' : σ} {memo : Memo} {e : Error}
      (hfind : memo.find? q = none) (hask : (t.ask q).from s = (.error e, s')) :
      Course t (ask q next) s memo [⟨q, .error e⟩] (.error e) s' memo

theorem exists_course (t : Taxonomy σ) (c : Dialogue α) (s : σ) (memo : Memo) :
    ∃ calls result s' memo', Course t c s memo calls result s' memo' := by
  induction c generalizing s memo with
  | done result => exact ⟨[], result, s, memo, .done result s memo⟩
  | ask q next ih =>
    cases hfind : memo.find? q with
    | some o =>
      obtain ⟨calls, result, s', memo', rest⟩ := ih o s memo
      exact ⟨calls, result, s', memo', .known hfind rest⟩
    | none =>
      rcases hask : (t.ask q).from s with ⟨answer, s₁⟩
      cases answer with
      | error e => exact ⟨_, _, s₁, memo, .failed hfind hask⟩
      | ok o =>
        obtain ⟨calls, result, s', memo', rest⟩ := ih o s₁ (memo.learn q o)
        exact ⟨_, result, s', memo', .answered hfind hask rest⟩

namespace Course

variable {t : Taxonomy σ} {c : Dialogue α} {s s' : σ} {memo memo' : Memo} {calls : List Exchange}
  {result : Except Error α}

/-- The course is what comes of the dialogue. -/
theorem from_run_memoised (h : Course t c s memo calls result s' memo') :
    (c.run t.memoised).from (s, memo) = (result, s', memo') := by
  induction h with
  | done result s memo => rfl
  | known hfind rest ih =>
    rw [from_run_ask_of_ok (t.from_ask_memoised_of_some hfind _), ih]
  | answered hfind hask rest ih =>
    rw [from_run_ask_of_ok (Taxonomy.from_ask_memoised_of_ok hfind hask), ih]
  | failed hfind hask =>
    exact from_run_ask_of_error (Taxonomy.from_ask_memoised_of_error hfind hask) _

/-- Its calls are what is put on record. -/
theorem from_run_recording_memoised (h : Course t c s memo calls result s' memo')
    (log : List Exchange) :
    (c.run t.recording.memoised).from ((s, log), memo) = (result, (s', log ++ calls), memo') := by
  induction h generalizing log with
  | done result s memo => rw [from_run_done, List.append_nil]
  | known hfind rest ih =>
    rw [from_run_ask_of_ok (t.recording.from_ask_memoised_of_some hfind _), ih]
  | answered hfind hask rest ih =>
    have hnoted := Taxonomy.from_ask_recording hask log
    rw [from_run_ask_of_ok (Taxonomy.from_ask_memoised_of_ok hfind hnoted), ih, List.append_assoc]
    rfl
  | failed hfind hask =>
    have hnoted := Taxonomy.from_ask_recording hask log
    exact from_run_ask_of_error (Taxonomy.from_ask_memoised_of_error hfind hnoted) _

/-- No question is asked that the memo knows, and none is asked twice. -/
theorem nodup_questions (h : Course t c s memo calls result s' memo') :
    (calls.map (·.question)).Nodup ∧ ∀ call ∈ calls, memo.find? call.question = none := by
  induction h with
  | done result s memo => exact ⟨.nil, fun call hcall => absurd hcall List.not_mem_nil⟩
  | known hfind rest ih => exact ih
  | @answered q next s s₁ s' memo memo' o calls result hfind hask rest ih =>
    obtain ⟨hnodup, hnew⟩ := ih
    -- The answer is in the memo from now on, so that the question does not come again.
    have hlater : ∀ call ∈ calls, q ≠ call.question ∧ memo.find? call.question = none := by
      intro call hcall
      have hnone := hnew call hcall
      rw [Memo.find?_learn] at hnone
      split at hnone
      · cases hnone
      · rename_i hne
        exact ⟨hne, hnone⟩
    rw [List.map_cons, List.nodup_cons]
    refine ⟨⟨fun hmem => ?_, hnodup⟩, List.forall_mem_cons.2 ⟨hfind, fun call hcall => ?_⟩⟩
    · obtain ⟨call, hcall, heq⟩ := List.mem_map.1 hmem
      exact (hlater call hcall).1 heq.symm
    · exact (hlater call hcall).2
  | failed hfind hask =>
    exact ⟨List.nodup_singleton _, List.forall_mem_cons.2
      ⟨hfind, fun call hcall => absurd hcall List.not_mem_nil⟩⟩

end Course

end Dialogue

end FacetIndex
