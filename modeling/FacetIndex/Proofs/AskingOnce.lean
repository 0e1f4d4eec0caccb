/-
  Proofs/AskingOnce.lean --- a build asks no question twice.

  WHAT THIS FILE IS FOR.  `Indexer.buildAfresh` is the transformation that asks
  the taxonomy whenever it needs an ordinal, and `Indexer.steps` are its
  questions, with their answers and with the states between them.
  `Indexer.build` looks into a memo first.  What the memo does to a dialogue is
  known from `Proofs/Course.lean` and `Proofs/Memoisation.lean`; here it is
  carried over to builds.

  WHAT IS PROVED.

      Indexer.exists_course_of_examine_ok
          what a build of an admitted document asks, and what becomes of it, is
          the course of the dialogue of the document
      Indexer.build_recording_of_agrees
          where the taxonomy treats a repeated question as it treated the one
          before, nobody sees the memo but for the questions that are left out
      Indexer.build_asks_once
          no question gets past the memo twice, however the taxonomy answers, and
          the taxonomies with fixed answers and those in memory are among those
          on which nobody sees it

  WHAT IS NOT SAID.  Nothing is remembered from one build to the next: the memo
  is empty at the start of each, and two builds of one document may well ask the
  same questions.
-/
import FacetIndex.Proofs.Indexer
import FacetIndex.Proofs.Steadiness

set_option autoImplicit false

namespace FacetIndex

variable {σ : Type}

namespace Indexer

/-- Resolves the facets of a document, asking the taxonomy every time. -/
def buildAfresh (ix : Indexer) (t : Taxonomy σ) (s : σ) (d : Document) :
    Except Error Built × Indexer × σ :=
  match d.examine ix.settings ix.kinds with
  | .error violation => (.error (.validation violation), ix, s)
  | .ok kinds =>
      match (t.resolve ix.settings d).from s with
      | (.error e, s') => (.error e, ix, s')
      | (.ok added, s') => (.ok ⟨d, added⟩, ix.track kinds, s')

/-- What the taxonomy is asked when it is asked every time. -/
def steps (ix : Indexer) (t : Taxonomy σ) (s : σ) (d : Document) : List (Step σ) :=
  match d.examine ix.settings ix.kinds with
  | .error _ => []
  | .ok _ => (Dialogue.resolve ix.settings d).steps t s

end Indexer

/-! ## Builds -/

theorem Taxonomy.steady_fixed (category : Label → Except Error Ordinal)
    (parent : Ordinal → Except Error Ordinal) :
    (fixed category parent : Taxonomy σ).Steady fun _ _ => True where
  known_answer _ _ := trivial
  known_kept _ _ := trivial
  settled_answer := by
    intro s s' q o _ h
    have hsame : s = s' := by
      cases q <;> exact (Prod.mk.inj h).2
    exact hsame ▸ h
  settled_kept := by
    intro s s' q q' r o _ hsettled h
    have hsame : s = s' := by
      cases q' <;> exact (Prod.mk.inj h).2
    exact hsame ▸ hsettled

namespace Indexer

variable {ix : Indexer} {t : Taxonomy σ} {s : σ} {d : Document}

/-- What a build of an admitted document asks, and what becomes of it, is the course of the dialogue
of the document. -/
theorem exists_course_of_examine_ok {kinds : KindTable}
    (hexamine : d.examine ix.settings ix.kinds = .ok kinds) (t : Taxonomy σ) (s : σ) :
    ∃ calls resolved ix' s' memo,
      Dialogue.Course t (Dialogue.resolve ix.settings d) s {} calls resolved s' memo ∧
      ix.build t s d = (resolved.map (fun added => ⟨d, added⟩), ix', s') ∧
      ix.build t.recording (s, []) d =
        (resolved.map (fun added => ⟨d, added⟩), ix', s', calls) := by
  obtain ⟨calls, resolved, s', memo, hcourse⟩ :=
    Dialogue.exists_course t (Dialogue.resolve ix.settings d) s {}
  have hrun := hcourse.from_run_memoised
  have hrecorded := hcourse.from_run_recording_memoised []
  rw [Dialogue.run_resolve] at hrun hrecorded
  cases resolved with
  | error e =>
    exact ⟨calls, .error e, ix, s', memo, hcourse, build_of_resolve_error hexamine hrun,
      build_of_resolve_error hexamine hrecorded⟩
  | ok added =>
    exact ⟨calls, .ok added, ix.track kinds, s', memo, hcourse, build_of_resolve_ok hexamine hrun,
      build_of_resolve_ok hexamine hrecorded⟩

/-- A build with a record goes as the one without it, and asks nothing twice. -/
theorem exists_calls_of_build (ix : Indexer) (t : Taxonomy σ) (s : σ) (d : Document) :
    ∃ calls result ix' s', ix.build t s d = (result, ix', s') ∧
      ix.build t.recording (s, []) d = (result, ix', s', calls) ∧
      (calls.map (·.question)).Nodup := by
  cases hexamine : d.examine ix.settings ix.kinds with
  | error violation =>
    exact ⟨[], .error (.validation violation), ix, s, build_of_examine_error hexamine,
      build_of_examine_error hexamine, .nil⟩
  | ok kinds =>
    obtain ⟨calls, resolved, ix', s', memo, hcourse, hbuild, hrecorded⟩ :=
      exists_course_of_examine_ok hexamine t s
    exact ⟨calls, _, ix', s', hbuild, hrecorded, hcourse.nodup_questions.1⟩

theorem buildAfresh_of_examine_error {violation : Violation}
    (hexamine : d.examine ix.settings ix.kinds = .error violation) :
    ix.buildAfresh t s d = (.error (.validation violation), ix, s) := by
  rw [buildAfresh, hexamine]

theorem steps_of_examine_error {violation : Violation}
    (hexamine : d.examine ix.settings ix.kinds = .error violation) : ix.steps t s d = [] := by
  rw [steps, hexamine]

theorem steps_of_examine_ok {kinds : KindTable}
    (hexamine : d.examine ix.settings ix.kinds = .ok kinds) :
    ix.steps t s d = (Dialogue.resolve ix.settings d).steps t s := by
  rw [steps, hexamine]

theorem buildAfresh_of_resolve_error {kinds : KindTable} {s' : σ} {e : Error}
    (hexamine : d.examine ix.settings ix.kinds = .ok kinds)
    (hresolve : (t.resolve ix.settings d).from s = (.error e, s')) :
    ix.buildAfresh t s d = (.error e, ix, s') := by
  simp only [buildAfresh, hexamine, hresolve]

theorem buildAfresh_of_resolve_ok {kinds : KindTable} {s' : σ} {added : Addition}
    (hexamine : d.examine ix.settings ix.kinds = .ok kinds)
    (hresolve : (t.resolve ix.settings d).from s = (.ok added, s')) :
    ix.buildAfresh t s d = (.ok ⟨d, added⟩, ix.track kinds, s') := by
  simp only [buildAfresh, hexamine, hresolve]

/-- A steady taxonomy answers a repeated question of a build as it did before. -/
theorem pairwise_agrees {Known : σ → Ordinal → Prop} (steady : t.Steady Known) (ix : Indexer)
    (s : σ) (d : Document) : (ix.steps t s d).Pairwise Step.Agrees := by
  cases hexamine : d.examine ix.settings ix.kinds with
  | error violation =>
    rw [steps_of_examine_error hexamine]
    exact .nil
  | ok kinds =>
    rw [steps_of_examine_ok hexamine]
    exact Dialogue.pairwise_agrees steady
      (Dialogue.grounded_resolve ix.settings d fun _ => False) fun _ => False.elim

/-- A build that asks every time is recorded as its steps. -/
theorem buildAfresh_recording (ix : Indexer) (t : Taxonomy σ) (s : σ) (d : Document) :
    ix.buildAfresh t.recording (s, []) d =
      ((ix.buildAfresh t s d).1, (ix.buildAfresh t s d).2.1, (ix.buildAfresh t s d).2.2,
        (ix.steps t s d).map Step.exchange) := by
  have hrecorded := Dialogue.from_run_recording t (Dialogue.resolve ix.settings d) s []
  rw [Dialogue.run_resolve, Dialogue.run_resolve, List.nil_append] at hrecorded
  cases hexamine : d.examine ix.settings ix.kinds with
  | error violation =>
    rw [buildAfresh_of_examine_error hexamine, buildAfresh_of_examine_error hexamine,
      steps_of_examine_error hexamine, List.map_nil]
  | ok kinds =>
    rcases hresolve : (t.resolve ix.settings d).from s with ⟨result, s'⟩
    rw [hresolve] at hrecorded
    rw [steps_of_examine_ok hexamine]
    cases result with
    | error e =>
      rw [buildAfresh_of_resolve_error hexamine hrecorded,
        buildAfresh_of_resolve_error hexamine hresolve]
    | ok added =>
      rw [buildAfresh_of_resolve_ok hexamine hrecorded, buildAfresh_of_resolve_ok hexamine hresolve]

/-- Where repeated questions change nothing, a build does the same whether it looks into its memo
or not, and asks each question the first time. -/
theorem build_recording_of_agrees (h : (ix.steps t s d).Pairwise Step.Agrees) :
    ix.build t.recording (s, []) d =
      ((ix.buildAfresh t s d).1, (ix.buildAfresh t s d).2.1, (ix.buildAfresh t s d).2.2,
        Exchange.firsts ((ix.steps t s d).map Step.exchange)) := by
  cases hexamine : d.examine ix.settings ix.kinds with
  | error violation =>
    rw [build_of_examine_error hexamine, buildAfresh_of_examine_error hexamine,
      steps_of_examine_error hexamine]
    rfl
  | ok kinds =>
    rw [steps_of_examine_ok hexamine] at h ⊢
    obtain ⟨calls, resolved, s', memo, hcourse⟩ :=
      Dialogue.exists_course t (Dialogue.resolve ix.settings d) s {}
    have hrecorded := hcourse.from_run_recording_memoised []
    obtain ⟨hresolve, rfl⟩ := hcourse.of_agrees h fun b _ o hfind =>
      absurd hfind (Memo.find?_empty_ne_some _ o)
    rw [Dialogue.run_resolve] at hrecorded hresolve
    rw [List.nil_append, Dialogue.newCalls_empty] at hrecorded
    cases resolved with
    | error e =>
      rw [buildAfresh_of_resolve_error hexamine hresolve]
      exact build_of_resolve_error hexamine hrecorded
    | ok added =>
      rw [buildAfresh_of_resolve_ok hexamine hresolve]
      exact build_of_resolve_ok hexamine hrecorded

/-- However a taxonomy answers, a build asks it no question twice, be it for the ordinal of a label,
for a category or for an association, or for the parent of an ordinal.  If the taxonomy treats the
questions that a build would repeat as it treated them before, the build ends as one that asks every
time, in the same state, and asks the same questions in the same order, but for the repetitions.
Taxonomies with fixed answers and those in memory are of this sort in every state. -/
theorem build_asks_once (ix : Indexer) (d : Document) :
    (∀ (t : Taxonomy σ) (s : σ), ∃ calls result ix' s',
      ix.build t s d = (result, ix', s') ∧
      ix.build t.recording (s, []) d = (result, ix', s', calls) ∧
      (calls.map (·.question)).Nodup ∧
      ((ix.steps t s d).Pairwise Step.Agrees →
        ix.buildAfresh t s d = (result, ix', s') ∧
        ∃ calls', ix.buildAfresh t.recording (s, []) d = (result, ix', s', calls') ∧
          calls = Exchange.firsts calls')) ∧
    (∀ (category : Label → Except Error Ordinal) (parent : Ordinal → Except Error Ordinal) (s : σ),
      (ix.steps (Taxonomy.fixed category parent) s d).Pairwise Step.Agrees) ∧
    ∀ m : Memory, (ix.steps Memory.taxonomy m d).Pairwise Step.Agrees := by
  refine ⟨fun t s => ?_, fun category parent s =>
    pairwise_agrees (Taxonomy.steady_fixed category parent) ix s d, fun m =>
    pairwise_agrees Memory.steady ix m d⟩
  obtain ⟨calls, result, ix', s', hbuild, hrecorded, hnodup⟩ := ix.exists_calls_of_build t s d
  refine ⟨calls, result, ix', s', hbuild, hrecorded, hnodup, fun hagrees => ?_⟩
  have hafresh := build_recording_of_agrees hagrees
  rw [hrecorded] at hafresh
  obtain ⟨hresult, hrest⟩ := Prod.mk.inj hafresh
  obtain ⟨hix, hrest⟩ := Prod.mk.inj hrest
  obtain ⟨hs, hcalls⟩ := Prod.mk.inj hrest
  refine ⟨by rw [hresult, hix, hs], (ix.steps t s d).map Step.exchange, ?_, hcalls⟩
  rw [buildAfresh_recording, hresult, hix, hs]

/-- Origins have hierarchies, and a document may have several. -/
def songSettings : Dimension.Store :=
  Dimension.Store.change {} "Origin" (.all ⟨true, true, false, "origins"⟩)

/-- The style of a song, which is scored too. -/
def songStyle : Label := ⟨"Style", ["Folk"], by decide, by decide⟩

/-- An origin of a song. -/
def songOrigin (name : String) (h : name ≠ "") : Label :=
  ⟨"Origin", ["Tyrol", name], by decide, by simp [h]⟩

/-- A song of two origins with an ancestor in common, whose style is a category and is scored. -/
def song : Document where
  indexable := [
    .facet (.category songStyle (by decide)),
    .facet (.category (songOrigin "North" (by decide)) (List.cons_ne_nil _ _)),
    .facet (.category (songOrigin "South" (by decide)) (List.cons_ne_nil _ _)),
    .facet (.association ⟨"Style", ["Folk"], by decide, by decide⟩ (.int 9) (by decide))]

/-- The songs of an archive, in which every category has its ordinal. -/
def songArchive : Taxonomy Unit :=
  Taxonomy.fixed
    (fun l => .ok (if l = songStyle then 2 else if l.path = ["Tyrol", "North"] then 5 else 6))
    (fun o => .ok (if o = 6 then 4 else if o = 3 then 0 else o - 1))

theorem build_asks_once_song :
    ∃ calls calls' result ix',
      Indexer.build ⟨songSettings, ∅⟩ songArchive.recording ((), []) song =
        (result, ix', (), calls) ∧
      Indexer.buildAfresh ⟨songSettings, ∅⟩ songArchive.recording ((), []) song =
        (result, ix', (), calls') ∧
      calls'.length = 10 ∧
      calls.map (·.question) = [
        .category songStyle, .category (songOrigin "North" (by decide)), .parent 5, .parent 4,
        .parent 3, .category (songOrigin "South" (by decide)), .parent 6] := by
  let ix : Indexer := ⟨songSettings, ∅⟩
  obtain ⟨hbuilds, hfixed, _⟩ := build_asks_once (σ := Unit) ix song
  obtain ⟨calls, result, ix', _, _, hrecorded, _, hsame⟩ := hbuilds songArchive ()
  obtain ⟨_, calls', hafresh, hcalls⟩ := hsame (hfixed _ _ ())
  have hexamine : ∃ kinds, song.examine songSettings ∅ = .ok kinds := ⟨_, rfl⟩
  obtain ⟨kinds, hexamine⟩ := hexamine
  have hlog : calls' = ((songArchive.recording.resolve songSettings song).from ((), [])).2.2 := by
    rcases hresolve : (songArchive.recording.resolve songSettings song).from ((), []) with
      ⟨result', s'⟩
    cases result' with
    | error e => exact congrArg (·.2.2.2) (hafresh.symm.trans
        (buildAfresh_of_resolve_error hexamine hresolve))
    | ok added => exact congrArg (·.2.2.2) (hafresh.symm.trans
        (buildAfresh_of_resolve_ok hexamine hresolve))
  refine ⟨calls, calls', result, ix', hrecorded, hafresh, ?_, ?_⟩
  · rw [hlog]
    cbv
  · rw [hcalls, hlog]
    cbv

end Indexer

end FacetIndex
