/-
  Proofs/Memoisation.lean --- what a memo changes, and when it changes nothing.

  WHAT THIS FILE IS FOR.  A memo can stand for a taxonomy as long as its answers
  stay right while the taxonomy changes.  Not every answer does: the parent of an
  ordinal that is not in use yet will be another one later.  So two things are
  needed.  A taxonomy is `Steady` on the ordinals that are known to it: what it
  answered once it always answers, and asking again changes nothing.  A dialogue
  is `Grounded`: it asks only for parents of ordinals that it was given.

  WHAT IS PROVED.

      Dialogue.Course.of_agrees
          where a repeated question has the answer it had, a dialogue ends behind
          a memo as it does without one, and each question is asked once
      Dialogue.pairwise_agrees
          a steady taxonomy repeats its answers in every grounded dialogue
      Dialogue.grounded_resolve
          resolving a document is grounded
      Taxonomy.Steady.from_resolve_memoised
          so on a steady taxonomy a document is resolved to the same addition, or
          fails in the same way, with a memo and without

  WHAT IS NOT SAID.  Nothing is claimed of a taxonomy that changes its mind.
  There the memo does make a difference, and only `Proofs/Course.lean` applies.
-/
import FacetIndex.Proofs.Course

set_option autoImplicit false

namespace FacetIndex

variable {σ α β : Type}

/-! ## Steady taxonomies -/

/-- A question that asks for parents of known ordinals only. -/
def Question.Proper (known : Ordinal → Prop) : Question → Prop
  | .category _ => True
  | .parent o => known o

theorem Question.Proper.mono {known known' : Ordinal → Prop} {q : Question} (h : q.Proper known)
    (hle : ∀ o, known o → known' o) : q.Proper known' := by
  cases q with
  | category l => trivial
  | parent o => exact hle o h

namespace Taxonomy

/-- Asked now, the question has this answer, and asking changes nothing. -/
def Settled (t : Taxonomy σ) (s : σ) (q : Question) (o : Ordinal) : Prop :=
  (t.ask q).from s = (.ok o, s)

/-- What was answered once will always be answered so, on the ordinals that are known in a state.
-/
structure Steady (t : Taxonomy σ) (Known : σ → Ordinal → Prop) : Prop where
  /-- An answer is a known ordinal. -/
  known_answer : ∀ {s s' : σ} {q : Question} {o : Ordinal}, q.Proper (Known s) →
    (t.ask q).from s = (.ok o, s') → Known s' o
  /-- A known ordinal stays known. -/
  known_kept : ∀ {s s' : σ} {q : Question} {r : Except Error Ordinal} {o : Ordinal},
    Known s o → (t.ask q).from s = (r, s') → Known s' o
  /-- A question that was answered is settled. -/
  settled_answer : ∀ {s s' : σ} {q : Question} {o : Ordinal}, q.Proper (Known s) →
    (t.ask q).from s = (.ok o, s') → t.Settled s' q o
  /-- A settled question stays settled. -/
  settled_kept : ∀ {s s' : σ} {q q' : Question} {r : Except Error Ordinal} {o : Ordinal},
    q.Proper (Known s) → t.Settled s q o → (t.ask q').from s = (r, s') → t.Settled s' q o

end Taxonomy

/-! ## Grounded dialogues -/

namespace Dialogue

/-- The dialogue asks only for parents of ordinals that are known or that it was given. -/
def Grounded : Dialogue α → (known : Ordinal → Prop) → Prop
  | done _, _ => True
  | ask q next, known => q.Proper known ∧ ∀ o, (next o).Grounded fun p => known p ∨ p = o

theorem grounded_done (result : Except Error α) (known : Ordinal → Prop) :
    (done result).Grounded known := trivial

theorem Grounded.bind {d : Dialogue α} {f : α → Dialogue β} :
    ∀ {known : Ordinal → Prop}, d.Grounded known →
      (∀ x known', (∀ o, known o → known' o) → (f x).Grounded known') →
      (d.bind f).Grounded known := by
  induction d with
  | done result =>
    intro known _ hf
    cases result with
    | ok x => exact hf x known fun o ho => ho
    | error e => exact grounded_done _ _
  | ask q next ih =>
    intro known h hf
    refine ⟨h.1, fun o => ih o (h.2 o) fun x known' hle => ?_⟩
    exact hf x known' fun p hp => hle p (Or.inl hp)

theorem grounded_each {f : α → Dialogue β} (hf : ∀ x known, (f x).Grounded known) (xs : List α)
    (known : Ordinal → Prop) : (each f xs).Grounded known := by
  induction xs generalizing known with
  | nil => trivial
  | cons x xs ih =>
    exact (hf x known).bind fun y known' _ => (ih known').bind fun ys _ _ => trivial

theorem grounded_ancestors (steps : Nat) :
    ∀ (o : Ordinal) (known : Ordinal → Prop), known o → (ancestors steps o).Grounded known := by
  induction steps with
  | zero =>
    intro o known _
    trivial
  | succ steps ih =>
    intro o known ho
    refine ⟨ho, fun parent => ?_⟩
    dsimp only
    split
    · exact (ih parent _ (Or.inr rfl)).bind fun further _ _ => grounded_done _ _
    · exact grounded_done _ _

theorem grounded_ordinalsOf (settings : Dimension.Settings) (label : Label)
    (known : Ordinal → Prop) : (ordinalsOf settings label).Grounded known := by
  refine ⟨trivial, fun ordinal => ?_⟩
  dsimp only
  split
  · exact (grounded_ancestors _ ordinal _ (Or.inr rfl)).bind fun above _ _ => grounded_done _ _
  · exact grounded_done _ _

theorem grounded_categoryBlob (store : Dimension.Store) (labels : List Label)
    (known : Ordinal → Prop) : (categoryBlob store labels).Grounded known :=
  (grounded_each (fun _ => grounded_ordinalsOf _ _) labels known).bind fun _ _ _ =>
    grounded_done _ _

theorem grounded_associationBlob (values : List (Label × Association.Value))
    (known : Ordinal → Prop) : (associationBlob values).Grounded known := by
  refine (grounded_each (fun v known' => ?_) values known).bind fun _ _ _ => grounded_done _ _
  exact ⟨trivial, fun o => grounded_done _ _⟩

theorem grounded_blobs {blob : α → Dialogue Bytes} (h : ∀ x known, (blob x).Grounded known)
    (groups : List (String × α)) (known : Ordinal → Prop) :
    (blobs blob groups).Grounded known :=
  grounded_each (fun group _ => (h group.2 _).bind fun _ _ _ => grounded_done _ _) groups known

/-- Resolving a document never asks for the parent of an ordinal it was not given. -/
theorem grounded_resolve (store : Dimension.Store) (d : Document) (known : Ordinal → Prop) :
    (resolve store d).Grounded known :=
  (grounded_blobs (grounded_categoryBlob store) _ known).bind fun _ _ _ =>
    (grounded_blobs grounded_associationBlob _ _).bind fun _ _ _ => grounded_done _ _

end Dialogue

/-! ## Questions with the states between them -/

/-- A question that was asked in one state, answered, and left another state behind. -/
structure Step (σ : Type) where
  /-- The state in which it was asked. -/
  before : σ
  /-- The question. -/
  question : Question
  /-- The ordinal, or why there is none. -/
  answer : Except Error Ordinal
  /-- The state behind it. -/
  after : σ

namespace Step

/-- The question with its answer. -/
def exchange (b : Step σ) : Exchange := ⟨b.question, b.answer⟩

/-- The question has this answer, and asking it changes nothing. -/
def Repeats (b : Step σ) (answer : Except Error Ordinal) : Prop :=
  b.answer = answer ∧ b.after = b.before

/-- If the later step asks the question of the earlier one, it has the same answer and changes
nothing. -/
def Agrees (a b : Step σ) : Prop := a.question = b.question → b.Repeats a.answer

end Step

/-- Two exchanges have the same question. -/
def Exchange.sameQuestion (a b : Exchange) : Bool := a.question = b.question

/-- All but the first exchange of each question left out. -/
def Exchange.firsts (calls : List Exchange) : List Exchange := calls.eraseDupsBy sameQuestion

/-- What the taxonomy is asked in a dialogue, from a state. -/
def Dialogue.steps (t : Taxonomy σ) : Dialogue α → σ → List (Step σ)
  | done _, _ => []
  | ask q next, s =>
      match (t.ask q).from s with
      | (.ok o, s') => ⟨s, q, .ok o, s'⟩ :: (next o).steps t s'
      | (.error e, s') => [⟨s, q, .error e, s'⟩]

namespace Dialogue

theorem steps_ask_of_ok {t : Taxonomy σ} {q : Question} {s s' : σ} {o : Ordinal}
    (h : (t.ask q).from s = (.ok o, s')) (next : Ordinal → Dialogue α) :
    (ask q next).steps t s = ⟨s, q, .ok o, s'⟩ :: (next o).steps t s' := by
  rw [steps, h]

theorem steps_ask_of_error {t : Taxonomy σ} {q : Question} {s s' : σ} {e : Error}
    (h : (t.ask q).from s = (.error e, s')) (next : Ordinal → Dialogue α) :
    (ask q next).steps t s = [⟨s, q, .error e, s'⟩] := by
  rw [steps, h]

/-- The record of a dialogue is what the taxonomy was asked, and keeping it changes nothing. -/
theorem from_run_recording (t : Taxonomy σ) (c : Dialogue α) (s : σ) (log : List Exchange) :
    (c.run t.recording).from (s, log) =
      (((c.run t).from s).1, ((c.run t).from s).2, log ++ (c.steps t s).map Step.exchange) := by
  induction c generalizing s log with
  | done result => rw [from_run_done, from_run_done, steps, List.map_nil, List.append_nil]
  | ask q next ih =>
    rcases h : (t.ask q).from s with ⟨result, s'⟩
    have hasked := Taxonomy.from_ask_recording h log
    cases result with
    | ok o =>
      rw [from_run_ask_of_ok hasked, from_run_ask_of_ok h, steps_ask_of_ok h, ih,
        List.append_assoc]
      rfl
    | error e =>
      rw [from_run_ask_of_error hasked, from_run_ask_of_error h, steps_ask_of_error h]
      rfl

/-! ## The memo is invisible -/

/-- The questions that a memo lets through, each once. -/
def newCalls (memo : Memo) (steps : List (Step σ)) : List Exchange :=
  Exchange.firsts ((steps.filter fun b => memo.find? b.question = none).map Step.exchange)

/-- An empty memo lets everything through once. -/
theorem newCalls_empty (steps : List (Step σ)) :
    newCalls {} steps = Exchange.firsts (steps.map Step.exchange) := by
  rw [newCalls, List.filter_eq_self.2 fun b _ => by rw [Memo.find?_empty]; rfl]

theorem newCalls_cons_of_some {memo : Memo} {b : Step σ} {o : Ordinal}
    (h : memo.find? b.question = some o) (rest : List (Step σ)) :
    newCalls memo (b :: rest) = newCalls memo rest := by
  rw [newCalls, List.filter_cons_of_neg (by simp [h]), newCalls]

/-- A question that is let through is remembered with any answer, and not let through again. -/
theorem newCalls_cons_of_none {memo : Memo} {b : Step σ} (h : memo.find? b.question = none)
    (o : Ordinal) (rest : List (Step σ)) :
    newCalls memo (b :: rest) = b.exchange :: newCalls (memo.learn b.question o) rest := by
  rw [newCalls, List.filter_cons_of_pos (by simp [h]), List.map_cons, Exchange.firsts,
    List.eraseDupsBy_cons, List.filter_map, List.filter_filter, newCalls, Exchange.firsts]
  refine congrArg (fun bs => _ :: List.eraseDupsBy _ (List.map _ bs)) (List.filter_congr ?_)
  intro c _
  rw [Memo.find?_learn]
  by_cases hq : b.question = c.question
  · simp [Exchange.sameQuestion, Step.exchange, hq]
  · simp [Exchange.sameQuestion, Step.exchange, hq, Ne.symm hq]

/-- Where repeated questions change nothing, a memo of answers that would be repeated changes
neither the result of a dialogue nor the state it ends in, and it lets each question through once.
-/
theorem Course.of_agrees {t : Taxonomy σ} {c : Dialogue α} {s s' : σ} {memo memo' : Memo}
    {calls : List Exchange} {result : Except Error α} (h : Course t c s memo calls result s' memo')
    (hagrees : (c.steps t s).Pairwise Step.Agrees)
    (hmemo : ∀ b ∈ c.steps t s, ∀ o, memo.find? b.question = some o → b.Repeats (.ok o)) :
    (c.run t).from s = (result, s') ∧ calls = newCalls memo (c.steps t s) := by
  induction h with
  | done result s memo => exact ⟨rfl, rfl⟩
  | @known q next s s' memo memo' o calls result hfind rest ih =>
    rcases hask : (t.ask q).from s with ⟨answer, s₁⟩
    cases answer with
    | error e =>
      rw [steps_ask_of_error hask] at hmemo
      cases (hmemo _ List.mem_cons_self o hfind).1
    | ok o' =>
      rw [steps_ask_of_ok hask] at hmemo hagrees ⊢
      obtain ⟨hanswer, hstate⟩ := hmemo _ List.mem_cons_self o hfind
      cases hanswer
      cases hstate
      rw [from_run_ask_of_ok hask, newCalls_cons_of_some hfind]
      exact ih (List.pairwise_cons.1 hagrees).2 fun b hb => hmemo b (List.mem_cons_of_mem _ hb)
  | @answered q next s s₁ s' memo memo' o calls result hfind hask rest ih =>
    rw [steps_ask_of_ok hask] at hmemo hagrees ⊢
    obtain ⟨hfirst, hrest⟩ := List.pairwise_cons.1 hagrees
    have hlearnt : ∀ b ∈ (next o).steps t s₁, ∀ p,
        (memo.learn q o).find? b.question = some p → b.Repeats (.ok p) := by
      intro b hb p hp
      obtain ⟨hq, rfl⟩ | hp := Memo.eq_or_find?_of_learn hp
      · exact hfirst b hb hq.symm
      · exact hmemo b (List.mem_cons_of_mem _ hb) p hp
    obtain ⟨hrun, hcalls⟩ := ih hrest hlearnt
    rw [from_run_ask_of_ok hask, hrun, newCalls_cons_of_none hfind o, hcalls]
    exact ⟨rfl, rfl⟩
  | @failed q next s s' memo e hfind hask =>
    rw [from_run_ask_of_error hask, steps_ask_of_error hask,
      newCalls_cons_of_none hfind Ordinal.invalid]
    exact ⟨rfl, rfl⟩

/-! ## Taxonomies that repeat their answers -/

section Steady

variable {t : Taxonomy σ} {Known : σ → Ordinal → Prop} (steady : t.Steady Known)
include steady

/-- A settled question is answered as it was settled, whenever it is asked. -/
theorem repeats_of_settled {c : Dialogue α} :
    ∀ {known : Ordinal → Prop} {s : σ} {q : Question} {o : Ordinal}, c.Grounded known →
      (∀ p, known p → Known s p) → q.Proper (Known s) → t.Settled s q o →
      ∀ b ∈ c.steps t s, b.question = q → b.Repeats (.ok o) := by
  induction c with
  | done result =>
    intro known s q o _ _ _ _ b hb
    cases hb
  | ask q' next ih =>
    intro known s q o hgrounded hknown hq hsettled b hb heq
    have hq' : q'.Proper (Known s) := hgrounded.1.mono hknown
    have hhead : ∀ {r : Except Error Ordinal} {s' : σ}, (t.ask q').from s = (r, s') → q' = q →
        (⟨s, q', r, s'⟩ : Step σ).Repeats (.ok o) := by
      intro r s' h hqq
      rw [hqq] at h
      exact Prod.mk.inj (h.symm.trans hsettled)
    rcases h : (t.ask q').from s with ⟨result, s'⟩
    cases result with
    | error e =>
      rw [steps_ask_of_error h, List.mem_singleton] at hb
      subst hb
      exact hhead h heq
    | ok p =>
      rw [steps_ask_of_ok h] at hb
      rcases List.mem_cons.1 hb with rfl | hb
      · exact hhead h heq
      · refine ih p (hgrounded.2 p) ?_ (hq.mono fun r hr => steady.known_kept hr h)
          (steady.settled_kept hq hsettled h) b hb heq
        intro r hr
        rcases hr with hr | rfl
        · exact steady.known_kept (hknown r hr) h
        · exact steady.known_answer hq' h

/-- A steady taxonomy answers a repeated question of a grounded dialogue as it did before. -/
theorem pairwise_agrees {c : Dialogue α} :
    ∀ {known : Ordinal → Prop} {s : σ}, c.Grounded known → (∀ p, known p → Known s p) →
      (c.steps t s).Pairwise Step.Agrees := by
  induction c with
  | done result =>
    intro known s _ _
    exact .nil
  | ask q next ih =>
    intro known s hgrounded hknown
    have hq : q.Proper (Known s) := hgrounded.1.mono hknown
    rcases h : (t.ask q).from s with ⟨result, s'⟩
    cases result with
    | error e =>
      rw [steps_ask_of_error h]
      exact List.pairwise_singleton _ _
    | ok o =>
      rw [steps_ask_of_ok h]
      have hknown' : ∀ p, known p ∨ p = o → Known s' p := by
        intro p hp
        rcases hp with hp | rfl
        · exact steady.known_kept (hknown p hp) h
        · exact steady.known_answer hq h
      refine .cons (fun b hb heq => ?_) (ih o (hgrounded.2 o) hknown')
      exact repeats_of_settled steady (hgrounded.2 o) hknown'
        (hq.mono fun p hp => steady.known_kept hp h) (steady.settled_answer hq h) b hb heq.symm

/-- On a steady taxonomy a memo changes neither the result of a grounded dialogue nor the state it
ends in. -/
theorem exists_from_run_memoised {c : Dialogue α} {known : Ordinal → Prop} {s : σ}
    (hgrounded : c.Grounded known) (hknown : ∀ p, known p → Known s p) :
    ∃ memo, (c.run t.memoised).from (s, {}) =
      (((c.run t).from s).1, ((c.run t).from s).2, memo) := by
  obtain ⟨calls, result, s', memo, hcourse⟩ := exists_course t c s {}
  obtain ⟨hrun, _⟩ := hcourse.of_agrees (pairwise_agrees steady hgrounded hknown)
    fun b _ o hfind => absurd hfind (Memo.find?_empty_ne_some _ o)
  exact ⟨memo, by rw [hcourse.from_run_memoised, hrun]⟩

end Steady

end Dialogue

/-! ## Documents -/

section Steady

variable {t : Taxonomy σ} {Known : σ → Ordinal → Prop} (steady : t.Steady Known)
include steady

/-- On a steady taxonomy a document is resolved to the same addition, or fails in the same way,
whether or not each question is asked once only. -/
theorem Taxonomy.Steady.from_resolve_memoised (store : Dimension.Store) (d : Document) (s : σ) :
    ∃ memo, (t.memoised.resolve store d).from (s, {}) =
      (((t.resolve store d).from s).1, ((t.resolve store d).from s).2, memo) := by
  have hnone : ∀ o : Ordinal, False → Known s o := fun _ => False.elim
  have h := Dialogue.exists_from_run_memoised steady
    (Dialogue.grounded_resolve store d fun _ => False) hnone
  rwa [Dialogue.run_resolve, Dialogue.run_resolve] at h

/-- So the result with a memo is that without it. -/
theorem Taxonomy.Steady.from_resolve_of_memoised {store : Dimension.Store} {d : Document}
    {s s' : σ} {memo : Memo} {result : Except Error Addition}
    (h : (t.memoised.resolve store d).from (s, {}) = (result, s', memo)) :
    (t.resolve store d).from s = (result, s') := by
  obtain ⟨memo', hplain⟩ := steady.from_resolve_memoised store d s
  have heq := hplain.symm.trans h
  simp only [Prod.mk.injEq] at heq
  exact Prod.ext heq.1 heq.2.1

end Steady

end FacetIndex
