/-
  Proofs/Run.lean --- runs that skip refused documents.

  WHAT THIS FILE IS FOR.  What a line does to a run depends on the indexer and the
  taxonomy of the run only, and a line whose document is refused changes neither of
  them.  So a run goes as if the lines that it skips had been empty: every other line
  finds the same indexer and the same taxonomy, and it has the same number.

  HOW IT GOES.  `Run.effect` is what a line does, apart from what it writes, and
  `Run.line_eq` says that a line is its effect.  `Run.withoutRejected` puts empty
  lines in the place of those whose documents are refused.

  WHAT IS PROVED.

      Run.line_skipped_or_same           one line, in the two runs side by side
      Run.lines_withoutRejected          all lines, by induction
      Run.rejected_lines_leave_no_trace  the run without the refused documents has
                                         the same reports and ends in the same way;
                                         every line is accounted for

  WHAT IS NOT SAID.  Which faults end a run: see `Proofs/Skipping.lean`.
-/
import FacetIndex.Command.Build
import FacetIndex.Proofs.Refusal

set_option autoImplicit false

namespace FacetIndex.Command

/-- The number of the line that the command was at. -/
def Context.line? : Context → Option Nat
  | .readLine line | .parseLine line | .sourceDocument line | .buildDocument line => some line
  | .encodedPath | .hexInput | .ordinalSet | .readSettings _ | .parseSettings _ | .sourceFile _ =>
      none

namespace Run

/-! ## What a line does -/

/-- What a line does to a run. -/
inductive Effect where
  /-- The line is blank. -/
  | pass
  /-- Its document is built and reported. -/
  | report (indexer : Indexer) (taxonomy : Memory) (text : String)
  /-- Its document is refused, with a remark. -/
  | skip (remark : String)
  /-- It ends the run. -/
  | stop (taxonomy : Memory) (failure : Failure)

/-- The run after a line. -/
def Effect.apply (r : Run) : Effect → Run × Option Failure
  | .pass => (r, none)
  | .report indexer taxonomy text =>
      ({ r with
          indexer := indexer, taxonomy := taxonomy, stdout := r.stdout ++ text,
          built := r.built + 1 }, none)
  | .skip remark => ({ r with stderr := r.stderr ++ remark, rejected := r.rejected + 1 }, none)
  | .stop taxonomy failure => ({ r with taxonomy := taxonomy }, some failure)

/-- The same run with other remarks on skipped documents. -/
def withRemarks (r : Run) (stderr : String) (rejected : Nat) : Run :=
  { r with stderr := stderr, rejected := rejected }

namespace Effect

variable {e : Effect} (h : ∀ remark, e ≠ .skip remark)
include h

theorem rejected_apply (r : Run) : (e.apply r).1.rejected = r.rejected := by
  cases e with
  | skip remark => exact absurd rfl (h remark)
  | pass => rfl
  | report ix m text => rfl
  | stop m failure => rfl

theorem apply_withRemarks (r : Run) (stderr : String) (rejected : Nat) :
    e.apply (r.withRemarks stderr rejected) =
      ((e.apply r).1.withRemarks stderr rejected, (e.apply r).2) := by
  cases e with
  | skip remark => exact absurd rfl (h remark)
  | pass => rfl
  | report ix m text => rfl
  | stop m failure => rfl

end Effect

/-- What a line does, seen from the indexer and the taxonomy alone. -/
def effect (skipInvalid : Bool) (ix : Indexer) (m : Memory) (number : Nat) (bytes : Bytes) :
    Effect :=
  match read number bytes with
  | .error failure => .stop m failure
  | .ok none => .pass
  | .ok (some d) =>
      match ix.build Memory.taxonomy m d with
      | (.ok b, ix', m') => .report ix' m' ((report number b).compact ++ "\n")
      | (.error e, _, m') =>
          if skipInvalid && e.isValidation then
            .skip (s!"Skipping line {number}: " ++ e.message ++ "\n")
          else .stop m' ⟨.buildDocument number, .error e⟩

/-- A line does nothing else: the indexer and the taxonomy stay when its document is refused. -/
theorem line_eq (skipInvalid : Bool) (r : Run) (number : Nat) (bytes : Bytes) :
    r.line skipInvalid number bytes =
      (effect skipInvalid r.indexer r.taxonomy number bytes).apply r := by
  unfold line effect
  cases read number bytes with
  | error failure => rfl
  | ok d? =>
    cases d? with
    | none => rfl
    | some d =>
      rcases hbuild : r.indexer.build Memory.taxonomy r.taxonomy d with ⟨result, ix', m'⟩
      cases result with
      | ok b => simp only [document, hbuild, Effect.apply, String.append_assoc]
      | error e =>
        have hix := Indexer.indexer_eq_of_build_error hbuild
        subst hix
        by_cases hskip : (skipInvalid && e.isValidation) = true
        · -- Nothing but a broken rule is skipped, and then the taxonomy is not asked at all.
          have hrefused := (Bool.and_eq_true_iff.1 hskip).2
          obtain ⟨_, rfl⟩ := Indexer.unchanged_of_build_refused Memory.reportsNoRule hbuild hrefused
          simp only [document, hbuild, hskip, if_true, Effect.apply, String.append_assoc]
        · simp only [document, hbuild, hskip, Bool.false_eq_true, if_false, Effect.apply]

/-- A document that can be built is reported. -/
theorem line_of_built {skipInvalid : Bool} {r : Run} {number : Nat} {bytes : Bytes} {d : Document}
    {b : Built} {ix : Indexer} {m : Memory} (hread : read number bytes = .ok (some d))
    (hbuild : r.indexer.build Memory.taxonomy r.taxonomy d = (.ok b, ix, m)) :
    r.line skipInvalid number bytes =
      ({ r with
          indexer := ix, taxonomy := m, built := r.built + 1,
          stdout := r.stdout ++ ((report number b).compact ++ "\n") }, none) := by
  rw [line_eq, effect, hread]
  dsimp only
  rw [hbuild]
  rfl

/-- The line is text that holds nothing to read. -/
def isBlank (bytes : Bytes) : Bool := (Lines.text? bytes).any Lines.isBlankLine

/-- Everything that reading a line can come to. -/
theorem read_cases (number : Nat) (bytes : Bytes) :
    (∃ failure, read number bytes = .error failure ∧ failure.doing.line? = some number ∧
      isBlank bytes = false) ∨
    (read number bytes = .ok none ∧ isBlank bytes = true) ∨
    ∃ d, read number bytes = .ok (some d) ∧ isBlank bytes = false := by
  unfold read isBlank
  cases Lines.text? bytes with
  | none => exact Or.inl ⟨_, rfl, rfl, rfl⟩
  | some text =>
    dsimp only
    rw [Option.any_some]
    cases hblank : Lines.isBlankLine text with
    | true => exact Or.inr (Or.inl ⟨if_pos rfl, rfl⟩)
    | false =>
      rw [if_neg Bool.false_ne_true]
      cases (Json.ofString? text).bind Source.Document.ofJson? with
      | none => exact Or.inl ⟨_, rfl, rfl, rfl⟩
      | some source =>
        dsimp only
        cases source.meaning with
        | error fault => exact Or.inl ⟨_, rfl, rfl, rfl⟩
        | ok d => exact Or.inr (Or.inr ⟨d, rfl, rfl⟩)

section Effect

variable {skipInvalid : Bool} {ix : Indexer} {m : Memory} {number : Nat} {bytes : Bytes}

/-- Exactly the blank lines are passed over. -/
theorem effect_eq_pass_iff :
    effect skipInvalid ix m number bytes = .pass ↔ isBlank bytes = true := by
  obtain ⟨failure, hread, _, hblank⟩ | ⟨hread, hblank⟩ | ⟨d, hread, hblank⟩ :=
    read_cases number bytes
  · simp [effect, hread, hblank]
  · simp [effect, hread, hblank]
  · simp only [effect, hread, hblank, Bool.false_eq_true, iff_false]
    split
    · exact Effect.noConfusion
    · split <;> exact Effect.noConfusion

/-- What ends a run names the line. -/
theorem line?_of_effect_eq_stop {m' : Memory} {failure : Failure}
    (h : effect skipInvalid ix m number bytes = .stop m' failure) :
    failure.doing.line? = some number := by
  obtain ⟨failure', hread, hline, _⟩ | ⟨hread, _⟩ | ⟨d, hread, _⟩ := read_cases number bytes
  · simp only [effect, hread] at h
    cases h
    exact hline
  · simp only [effect, hread] at h
    cases h
  · simp only [effect, hread] at h
    split at h
    · cases h
    · split at h
      · cases h
      · cases h
        rfl

/-- A line that is not skipped does the same whether or not lines are to be skipped. -/
theorem effect_eq_of_ne_skip (h : ∀ remark, effect true ix m number bytes ≠ .skip remark) :
    effect skipInvalid ix m number bytes = effect true ix m number bytes := by
  unfold effect at h ⊢
  split
  · rfl
  · rfl
  · rename_i d hread
    simp only [hread, Bool.true_and] at h ⊢
    split
    · rfl
    · rename_i e ix' m' hbuild
      simp only [hbuild] at h
      cases hrefused : e.isValidation with
      | true => exact absurd (if_pos hrefused) (h _)
      | false => rw [Bool.and_false]

end Effect

/-! ## Runs -/

section Lines

variable {skipInvalid : Bool} {r r' : Run} {number : Nat} {bytes : Bytes}

theorem lines_cons_of_none (h : r.line skipInvalid number bytes = (r', none)) (rest : List Bytes) :
    lines skipInvalid r number (bytes :: rest) = lines skipInvalid r' (number + 1) rest := by
  rw [lines, h]

theorem lines_cons_of_some {failure : Failure}
    (h : r.line skipInvalid number bytes = (r', some failure)) (rest : List Bytes) :
    lines skipInvalid r number (bytes :: rest) = (r', some failure) := by
  rw [lines, h]

end Lines

/-- The lines, but an empty one in the place of each that a run skips, that is, of each at which its
number of skipped documents goes up. -/
def withoutRejected (r : Run) (number : Nat) (ls : List Bytes) : List Bytes :=
  ls.mapIdx fun i bytes =>
    if (lines true r number (ls.take i)).1.rejected <
      (lines true r number (ls.take (i + 1))).1.rejected then [] else bytes

theorem withoutRejected_cons_of_none {r r' : Run} {number : Nat} {bytes : Bytes}
    (h : r.line true number bytes = (r', none)) (rest : List Bytes) :
    withoutRejected r number (bytes :: rest) =
      (if r.rejected < r'.rejected then [] else bytes) ::
        withoutRejected r' (number + 1) rest := by
  simp only [withoutRejected, List.mapIdx_cons, List.take_succ_cons, List.take_zero,
    lines_cons_of_none h, lines]

/-- After the end of the run nothing is skipped. -/
theorem withoutRejected_cons_of_some {r r' : Run} {number : Nat} {bytes : Bytes}
    {failure : Failure} (h : r.line true number bytes = (r', some failure))
    (hrejected : r'.rejected = r.rejected) (rest : List Bytes) :
    withoutRejected r number (bytes :: rest) = bytes :: rest := by
  simp only [withoutRejected, List.mapIdx_cons, List.take_succ_cons, List.take_zero,
    lines_cons_of_some h, lines, hrejected, Nat.lt_irrefl, if_false]
  refine congrArg (bytes :: ·) ?_
  exact List.ext_getElem? fun i => by simp

/-- A line is skipped, and the run differs in its remarks only; or it does the same whatever the
remarks were, and whether or not lines are to be skipped. -/
theorem line_skipped_or_same (r : Run) (number : Nat) (bytes : Bytes) :
    (∃ stderr, r.line true number bytes = (r.withRemarks stderr (r.rejected + 1), none)) ∨
    ∃ r' failure?, r.line true number bytes = (r', failure?) ∧ r'.rejected = r.rejected ∧
      ∀ skipInvalid stderr rejected,
        (r.withRemarks stderr rejected).line skipInvalid number bytes =
          (r'.withRemarks stderr rejected, failure?) := by
  have hline := line_eq true r number bytes
  generalize heffect : effect true r.indexer r.taxonomy number bytes = e at hline
  by_cases hskip : ∃ remark, e = .skip remark
  · obtain ⟨remark, rfl⟩ := hskip
    exact Or.inl ⟨r.stderr ++ remark, hline⟩
  · rw [not_exists] at hskip
    refine Or.inr ⟨(e.apply r).1, (e.apply r).2, hline, Effect.rejected_apply hskip r,
      fun skipInvalid stderr rejected => ?_⟩
    have hsame : effect skipInvalid r.indexer r.taxonomy number bytes = e := by
      rw [← heffect] at hskip ⊢
      exact effect_eq_of_ne_skip hskip
    rw [← Effect.apply_withRemarks hskip, ← hsame]
    exact line_eq skipInvalid (r.withRemarks stderr rejected) number bytes

theorem line_nil (skipInvalid : Bool) (r : Run) (number : Nat) :
    r.line skipInvalid number [] = (r, none) := by
  rw [line_eq, effect_eq_pass_iff.2 (show isBlank [] = true from rfl)]
  rfl

/-- Without the lines that are skipped a run does the same, but for the remarks on these lines. -/
theorem lines_withoutRejected (skipInvalid : Bool) (stderr : String) (rejected : Nat)
    (ls : List Bytes) (r : Run) (number : Nat) :
    lines skipInvalid (r.withRemarks stderr rejected) number (withoutRejected r number ls) =
      ((lines true r number ls).1.withRemarks stderr rejected, (lines true r number ls).2) := by
  induction ls generalizing r number with
  | nil => rfl
  | cons bytes rest ih =>
    obtain ⟨remarks, hline⟩ | ⟨r', failure?, hline, hrejected, hsame⟩ :=
      r.line_skipped_or_same number bytes
    · -- The other run passes over an empty line, and the two still differ in their remarks only.
      have hcount : r.rejected < (r.withRemarks remarks (r.rejected + 1)).rejected :=
        Nat.lt_succ_self r.rejected
      rw [withoutRejected_cons_of_none hline, if_pos hcount,
        lines_cons_of_none (line_nil skipInvalid _ number), lines_cons_of_none hline]
      exact ih (r.withRemarks remarks (r.rejected + 1)) (number + 1)
    · cases failure? with
      | none =>
        rw [withoutRejected_cons_of_none hline, if_neg (Nat.not_lt.2 hrejected.le),
          lines_cons_of_none (hsame skipInvalid stderr rejected), lines_cons_of_none hline]
        exact ih r' (number + 1)
      | some failure =>
        rw [withoutRejected_cons_of_some hline hrejected,
          lines_cons_of_some (hsame skipInvalid stderr rejected), lines_cons_of_some hline]

/-- A line that does not end a run is counted unless it is blank. -/
theorem counted_of_line {skipInvalid : Bool} {r r' : Run} {number : Nat} {bytes : Bytes}
    (h : r.line skipInvalid number bytes = (r', none)) :
    r'.built + r'.rejected = r.built + r.rejected + if isBlank bytes then 0 else 1 := by
  rw [line_eq] at h
  generalize heffect : effect skipInvalid r.indexer r.taxonomy number bytes = e at h
  have hblank : e = .pass ↔ isBlank bytes = true := heffect ▸ effect_eq_pass_iff
  cases e with
  | pass =>
    cases h
    rw [if_pos (hblank.1 rfl), Nat.add_zero]
  | report ix m text =>
    cases h
    rw [if_neg (mt hblank.2 Effect.noConfusion)]
    exact Nat.add_right_comm r.built 1 r.rejected
  | skip remark =>
    cases h
    rw [if_neg (mt hblank.2 Effect.noConfusion)]
    exact (Nat.add_assoc r.built r.rejected 1).symm
  | stop m failure => cases h

/-- A failure names the line, and the run is as it was before the line but for the taxonomy. -/
theorem stopped_of_line {skipInvalid : Bool} {r r' : Run} {number : Nat} {bytes : Bytes}
    {failure : Failure} (h : r.line skipInvalid number bytes = (r', some failure)) :
    failure.doing.line? = some number ∧ r' = { r with taxonomy := r'.taxonomy } := by
  rw [line_eq] at h
  generalize heffect : effect skipInvalid r.indexer r.taxonomy number bytes = e at h
  cases e with
  | stop m failure' =>
    cases h
    exact ⟨line?_of_effect_eq_stop heffect, rfl⟩
  | pass => cases h
  | report ix m text => cases h
  | skip remark => cases h

/-- A run that finishes has counted the lines that are not blank. -/
theorem counted_of_lines {skipInvalid : Bool} {ls : List Bytes} {r r' : Run} {number : Nat}
    (h : lines skipInvalid r number ls = (r', none)) :
    r'.built + r'.rejected = r.built + r.rejected + ls.countP (!isBlank ·) := by
  induction ls generalizing r number with
  | nil =>
    cases h
    rfl
  | cons bytes rest ih =>
    rcases hline : r.line skipInvalid number bytes with ⟨r₁, failure | failure⟩
    · rw [lines_cons_of_none hline] at h
      rw [ih h, counted_of_line hline, List.countP_cons, Nat.add_assoc, Nat.add_comm (ite _ _ _)]
      cases isBlank bytes <;> rfl
    · rw [lines_cons_of_some hline] at h
      cases h

/-- A run that stops has done the lines before without a failure, and the failure names the line. -/
theorem exists_stop_of_lines {skipInvalid : Bool} {ls : List Bytes} {r r' : Run} {number : Nat}
    {failure : Failure} (h : lines skipInvalid r number ls = (r', some failure)) :
    ∃ before bytes rest r₁, ls = before ++ bytes :: rest ∧
      failure.doing.line? = some (number + before.length) ∧
      lines skipInvalid r number before = (r₁, none) ∧
      r' = { r₁ with taxonomy := r'.taxonomy } := by
  induction ls generalizing r number with
  | nil => cases h
  | cons bytes rest ih =>
    rcases hline : r.line skipInvalid number bytes with ⟨r₁, failure₁ | failure₁⟩
    · rw [lines_cons_of_none hline] at h
      obtain ⟨before, bytes', rest', r₂, rfl, hfailure, hbefore, hr'⟩ := ih h
      refine ⟨bytes :: before, bytes', rest', r₂, rfl, ?_, ?_, hr'⟩
      · rw [hfailure, List.length_cons]
        congr 1
        omega
      · rw [lines_cons_of_none hline, hbefore]
    · rw [lines_cons_of_some hline] at h
      cases h
      obtain ⟨hnamed, hr'⟩ := stopped_of_line hline
      exact ⟨[], bytes, rest, r, rfl, hnamed, rfl, hr'⟩

/-- A run before its first line. -/
def start (ix : Indexer) (m : Memory) : Run := { indexer := ix, taxonomy := m }

/-- Lines whose documents are refused leave no trace in a run that skips them.  With empty lines in
their place the run has the same reports and the same number of them, it stops at the same line for
the same reason or finishes, too, and it leaves the same indexer and the same taxonomy; nothing is
skipped, whether or not lines are to be skipped.

A run that finishes has reported or skipped every line that is not blank.  A run that stops is, but
for the taxonomy, the one that finishes with the lines before. -/
theorem rejected_lines_leave_no_trace (skipInvalid : Bool) (ix : Indexer) (m : Memory)
    (ls : List Bytes) :
    (∀ run failure?, lines true (start ix m) 1 ls = (run, failure?) →
      lines skipInvalid (start ix m) 1 (withoutRejected (start ix m) 1 ls) =
        ({ run with stderr := "", rejected := 0 }, failure?)) ∧
    (∀ finished, lines skipInvalid (start ix m) 1 ls = (finished, none) →
      finished.built + finished.rejected = ls.countP (!isBlank ·)) ∧
    ∀ stopped failure, lines skipInvalid (start ix m) 1 ls = (stopped, some failure) →
      ∃ before bytes rest finished, ls = before ++ bytes :: rest ∧
        failure.doing.line? = some (before.length + 1) ∧
        lines skipInvalid (start ix m) 1 before = (finished, none) ∧
        stopped = { finished with taxonomy := stopped.taxonomy } := by
  refine ⟨fun run failure? h => ?_, fun finished h => ?_, fun stopped failure h => ?_⟩
  · have hclean := lines_withoutRejected skipInvalid "" 0 ls (start ix m) 1
    rw [h] at hclean
    exact hclean
  · rw [counted_of_lines h]
    exact Nat.zero_add _
  · obtain ⟨before, bytes, rest, finished, hls, hfailure, hbefore, hstopped⟩ :=
      exists_stop_of_lines h
    exact ⟨before, bytes, rest, finished, hls, by rw [hfailure, Nat.add_comm], hbefore, hstopped⟩

/-- The source of a document with one category of dates. -/
def datedLine (path : String) : Bytes :=
  ("\x7b\"facets\":[\x7b\"dim\":\"Date\",\"path\":[" ++ path ++ "]\x7d]\x7d").toUTF8.data.toList

/-- The second document is refused, since nothing is said about dates, and a blank line follows. -/
def datedLines : List Bytes := [datedLine "\"2020\"", datedLine "\"2020\",\"03\"", [32]]

theorem rejected_lines_leave_no_trace_datedLines :
    ∃ run, lines true (start {} {}) 1 datedLines = (run, none) ∧ run.rejected = 1 ∧
      run.built + run.rejected = 2 ∧
      lines false (start {} {}) 1 [datedLine "\"2020\"", [], [32]] =
        ({ run with stderr := "", rejected := 0 }, none) := by
  have hfinished : (lines true (start {} {}) 1 datedLines).2 = none := by decide +kernel
  have hrejected : (lines true (start {} {}) 1 datedLines).1.rejected = 1 := by decide +kernel
  have hcleaned :
      withoutRejected (start {} {}) 1 datedLines = [datedLine "\"2020\"", [], [32]] := by
    decide +kernel
  have hcounted : datedLines.countP (!isBlank ·) = 2 := by decide +kernel
  generalize hrun : lines true (start {} {}) 1 datedLines = result at hfinished hrejected
  obtain ⟨run, failure?⟩ := result
  cases hfinished
  refine ⟨run, rfl, hrejected, ?_, ?_⟩
  · rw [(rejected_lines_leave_no_trace true {} {} datedLines).2.1 run hrun, hcounted]
  · rw [← hcleaned]
    exact (rejected_lines_leave_no_trace false {} {} datedLines).1 run none hrun

end Run

end FacetIndex.Command
