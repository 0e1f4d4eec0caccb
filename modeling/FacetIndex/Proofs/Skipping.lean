/-
  Proofs/Skipping.lean --- what ends a run that skips refused documents.

  WHAT THIS FILE IS FOR.  A rule can be broken at two places.  The indexer refuses a
  document, and a run that is to skip such documents goes on with the next line.  But
  a facet without a dimension, without a path or with an empty component is refused
  before there is a document, and that ends the run although it is the violation of
  a rule, too.

  WHAT IS PROVED.

      Source.Facet.refusedIff_meaning, Source.Document.refusedIff_meaning
          which facets, and so which source documents, stand for nothing because a
          text is lacking (`LacksText`), when they are consistent otherwise
      Run.line_of_isReadable
          what a line does that can be read
      Run.skips_refused_stops_at_lacking
          of lines that can be read, exactly those end the run that lack a text,
          unless the taxonomy is full
      Run.skips_refused_stops_at_lacking_emptyComponent
          an empty component, which ends it

  WHAT IS NOT SAID.  Lines that cannot be read end a run, too; they are set apart by
  `Run.IsReadable`.
-/
import FacetIndex.Proofs.Exhaustion
import FacetIndex.Proofs.PathGrammar
import FacetIndex.Proofs.Run

set_option autoImplicit false

namespace FacetIndex

/-! ## Facets that break a rule of labels -/

/-- A label is made of a dimension and a path below it unless a text is missing. -/
theorem Facet.exists_deepLabel_iff {dimension : String} {path : List String} :
    (∃ l, deepLabel dimension path = .ok l) ↔
      ¬ (dimension = "" ∨ path = [] ∨ "" ∈ path) := by
  have hmakes : (∃ l, deepLabel dimension path = .ok l) ↔
      (∃ l : Label, dimension :: path = l.components) ∧ path ≠ [] := by
    unfold deepLabel
    constructor
    · rintro ⟨deep, h⟩
      split at h
      · cases h
      · rename_i l hl
        rw [Label.ofComponents_eq_ok_iff] at hl
        split at h
        · cases h
        · rename_i hpath
          obtain ⟨_, rfl⟩ := List.cons.inj hl
          exact ⟨⟨l, hl⟩, hpath⟩
    · rintro ⟨⟨l, hl⟩, hpath⟩
      obtain ⟨_, rfl⟩ := List.cons.inj hl
      rw [Label.ofComponents_eq_ok_iff.2 hl]
      exact ⟨⟨l, hpath⟩, dif_neg hpath⟩
  rw [hmakes, Label.exists_components_eq_iff, List.forall_mem_cons]
  constructor
  · rintro ⟨⟨_, hdimension, hpath⟩, hne⟩ (h | h | h)
    · exact hdimension h
    · exact hne h
    · exact hpath "" h rfl
  · intro h
    simp only [not_or] at h
    exact ⟨⟨List.cons_ne_nil _ _, h.1, fun c hc hempty => h.2.2 (hempty ▸ hc)⟩, h.2.1⟩

theorem Facet.exists_ofMember_iff {dimension value : String} :
    (∃ facet, ofMember dimension value = .ok facet) ↔ ¬ (dimension = "" ∨ value = "") := by
  unfold ofMember
  by_cases hdimension : dimension = ""
  · simp [hdimension]
  · by_cases hvalue : value = ""
    · simp [hdimension, hvalue]
    · simp [hdimension, hvalue]

namespace Source

variable {α : Type}

/-- What is made breaks a rule if the condition holds; otherwise it is made. -/
def RefusedIff (p : Prop) (made : Except Fault α) : Prop :=
  (p ∧ ∃ violation, made = .error (.violation violation)) ∨ (¬ p ∧ ∃ x, made = .ok x)

theorem RefusedIff.of_exists_ok_iff {p : Prop} {made : Except Violation α}
    (h : (∃ x, made = .ok x) ↔ ¬ p) : RefusedIff p (made.mapError Fault.violation) := by
  cases made with
  | ok x => exact Or.inr ⟨h.1 ⟨x, rfl⟩, x, rfl⟩
  | error violation =>
    refine Or.inl ⟨not_not.1 fun hp => ?_, violation, rfl⟩
    obtain ⟨_, hok⟩ := h.2 hp
    cases hok

/-- The parts of a facet go together: it has one value at most, its bytes are hexadecimal text, and
a label stands alone. -/
structure Facet.IsConsistent (f : Facet) : Prop where
  /-- There is one value at most. -/
  one_value : f.int = none ∧ f.float = none ∨ f.int = none ∧ f.bytes = none ∨
    f.float = none ∧ f.bytes = none
  /-- The bytes can be read. -/
  hex : ∀ text, f.bytes = some text → ∃ payload, Hex.decode text = .ok payload
  /-- With a label there is nothing else. -/
  label_alone : f.label ≠ none →
    f.path = [] ∧ f.int = none ∧ f.float = none ∧ f.bytes = none

/-- A text that a label needs is empty, or there is no path. -/
def Facet.LacksText (f : Facet) : Prop :=
  f.dimension = "" ∨ f.label = some "" ∨ f.label = none ∧ (f.path = [] ∨ "" ∈ f.path)

/-- A consistent facet has a value that can be read or none, and none beside a label. -/
theorem Facet.exists_value {f : Facet} (h : f.IsConsistent) :
    ∃ value, f.value = .ok value ∧ (f.label ≠ none → value = none) := by
  obtain ⟨dimension, path, label, int, float, bytes⟩ := f
  obtain ⟨hone, hhex, halone⟩ := h
  dsimp only at hone hhex halone
  obtain ⟨rfl, rfl⟩ | ⟨rfl, rfl⟩ | ⟨rfl, rfl⟩ := hone
  · cases bytes with
    | none => exact ⟨none, rfl, fun _ => rfl⟩
    | some text =>
      obtain ⟨payload, hpayload⟩ := hhex text rfl
      refine ⟨some (.bytes payload), ?_, fun hlabel => ?_⟩
      · simp only [value, hpayload]
      · cases (halone hlabel).2.2.2
  · cases float with
    | none => exact ⟨none, rfl, fun _ => rfl⟩
    | some bits => exact ⟨some (.float bits), rfl, fun hlabel => by cases (halone hlabel).2.2.1⟩
  · cases int with
    | none => exact ⟨none, rfl, fun _ => rfl⟩
    | some v => exact ⟨some (.int v), rfl, fun hlabel => by cases (halone hlabel).2.1⟩

/-- A consistent facet is refused exactly if a text is missing. -/
theorem Facet.refusedIff_meaning {f : Facet} (h : f.IsConsistent) :
    RefusedIff f.LacksText f.meaning := by
  obtain ⟨value, hvalue, halone⟩ := exists_value h
  unfold meaning LacksText
  simp only [hvalue]
  cases hlabel : f.label with
  | some label =>
    have hpath : f.path = [] := (h.label_alone (hlabel ▸ Option.some_ne_none label)).1
    cases halone (hlabel ▸ Option.some_ne_none label)
    simp only [hpath, List.isEmpty_nil, if_true, reduceCtorEq, false_and, or_false,
      Option.some.injEq]
    exact .of_exists_ok_iff FacetIndex.Facet.exists_ofMember_iff
  | none =>
    simp only [reduceCtorEq, false_or, true_and]
    cases value with
    | none =>
      refine .of_exists_ok_iff ?_
      rw [← FacetIndex.Facet.exists_deepLabel_iff, FacetIndex.Facet.ofPath]
      cases FacetIndex.Facet.deepLabel f.dimension f.path <;> simp [Except.map]
    | some v =>
      refine .of_exists_ok_iff ?_
      rw [← FacetIndex.Facet.exists_deepLabel_iff, FacetIndex.Facet.ofAssociation]
      cases FacetIndex.Facet.deepLabel f.dimension f.path <;> simp [Except.map]

theorem refusedIff_meanings {fs : List Facet} (h : ∀ f ∈ fs, f.IsConsistent) :
    RefusedIff (∃ f ∈ fs, f.LacksText) (meanings fs) := by
  induction fs with
  | nil => exact Or.inr ⟨by simp, [], rfl⟩
  | cons f fs ih =>
    obtain ⟨hf, hfs⟩ := List.forall_mem_cons.1 h
    rw [List.exists_mem_cons_iff]
    obtain ⟨hlacks, violation, hmeaning⟩ | ⟨hfull, facet, hmeaning⟩ := Facet.refusedIff_meaning hf
    · exact Or.inl ⟨Or.inl hlacks, violation, by rw [meanings, hmeaning]⟩
    · obtain ⟨hlacks, violation, hmeanings⟩ | ⟨hfulls, facets, hmeanings⟩ := ih hfs
      · exact Or.inl ⟨Or.inr hlacks, violation, by simp only [meanings, hmeaning, hmeanings]⟩
      · exact Or.inr ⟨not_or.2 ⟨hfull, hfulls⟩, facet :: facets,
          by simp only [meanings, hmeaning, hmeanings]⟩

theorem Document.refusedIff_meaning {source : Document}
    (h : ∀ f ∈ source.facets, f.IsConsistent) :
    RefusedIff (∃ f ∈ source.facets, f.LacksText) source.meaning := by
  unfold meaning
  obtain ⟨hlacks, violation, hmeanings⟩ | ⟨hfull, facets, hmeanings⟩ := refusedIff_meanings h
  · exact Or.inl ⟨hlacks, violation, by rw [hmeanings]⟩
  · exact Or.inr ⟨hfull, _, by rw [hmeanings]⟩

end Source

namespace Command.Run

/-! ## Lines that can be read -/

/-- The source document of a line that is not blank. -/
def source? (bytes : Bytes) : Option Source.Document :=
  if isBlank bytes then none
  else (Lines.text? bytes).bind fun text => (Json.ofString? text).bind Source.Document.ofJson?

/-- The line is blank, or it holds a source document whose facets are consistent. -/
def IsReadable (bytes : Bytes) : Prop :=
  isBlank bytes = true ∨
    ∃ source, source? bytes = some source ∧ ∀ f ∈ source.facets, f.IsConsistent

/-- The source document of the line has a facet in which a text is missing. -/
def LacksText (bytes : Bytes) : Prop :=
  ∃ source, source? bytes = some source ∧ ∃ f ∈ source.facets, f.LacksText

/-- A line with a source document says what the source document means. -/
theorem read_of_source? {number : Nat} {bytes : Bytes} {source : Source.Document}
    (h : source? bytes = some source) :
    read number bytes =
      (source.meaning.mapError fun fault => ⟨.sourceDocument number, .source fault⟩).map some := by
  rw [source?, Option.ite_none_left_eq_some, Option.bind_eq_some_iff] at h
  obtain ⟨hblank, text, htext, hsource⟩ := h
  rw [isBlank, htext, Option.any_some] at hblank
  unfold read
  simp only [htext, hsource, if_neg hblank]
  cases source.meaning with
  | error fault => rfl
  | ok d => rfl

/-- A readable line is refused before there is a document exactly if a text is missing in it. -/
theorem read_of_isReadable {number : Nat} {bytes : Bytes} (h : IsReadable bytes) :
    (LacksText bytes ∧ ∃ violation,
      read number bytes = .error ⟨.sourceDocument number, .source (.violation violation)⟩) ∨
    (¬ LacksText bytes ∧ ∃ d?, read number bytes = .ok d?) := by
  rcases h with hblank | ⟨source, hsource, hconsistent⟩
  · refine Or.inr ⟨?_, ?_⟩
    · rintro ⟨source, hsource, _⟩
      rw [source?, if_pos hblank] at hsource
      cases hsource
    · obtain ⟨_, _, _, hnot⟩ | ⟨hread, _⟩ | ⟨_, _, hnot⟩ := read_cases number bytes
      · cases hblank.symm.trans hnot
      · exact ⟨none, hread⟩
      · cases hblank.symm.trans hnot
  · have hlacks : LacksText bytes ↔ ∃ f ∈ source.facets, f.LacksText := by
      simp only [LacksText, hsource, Option.some.injEq, exists_eq_left']
    rw [hlacks, read_of_source? hsource]
    obtain ⟨hlacks, violation, hmeaning⟩ | ⟨hfull, d, hmeaning⟩ :=
      Source.Document.refusedIff_meaning hconsistent
    · refine Or.inl ⟨hlacks, violation, ?_⟩
      rw [hmeaning]
      rfl
    · refine Or.inr ⟨hfull, some d, ?_⟩
      rw [hmeaning]
      rfl

/-! ## What ends a run -/

/-- A line of which the indexer refuses the document is counted, with a remark. -/
theorem line_of_refused {r : Run} {number : Nat} {bytes : Bytes} {d : Document}
    {violation : Violation} {ix : Indexer} {m : Memory}
    (hread : read number bytes = .ok (some d))
    (hbuild : r.indexer.build Memory.taxonomy r.taxonomy d =
      (.error (.validation violation), ix, m)) :
    r.line true number bytes =
      ({ r with
          stderr := r.stderr ++
            (s!"Skipping line {number}: " ++ (Error.validation violation).message ++ "\n"),
          rejected := r.rejected + 1 }, none) := by
  rw [line_eq, effect, hread]
  dsimp only
  rw [hbuild]
  rfl

/-- A document that cannot be built ends a run that skips refused ones only if the taxonomy is full.
-/
theorem full_of_stopped_by_document {r r' : Run} {number : Nat} {bytes : Bytes}
    {d? : Option Document} {failure : Failure} (hread : read number bytes = .ok d?)
    (h : r.line true number bytes = (r', some failure)) : 2 ^ 31 < r'.taxonomy.size := by
  rw [line_eq, effect, hread] at h
  cases d? with
  | none => cases h
  | some d =>
    dsimp only at h
    rcases hbuild : r.indexer.build Memory.taxonomy r.taxonomy d with ⟨result, ix, m⟩
    rw [hbuild] at h
    cases result with
    | ok b => cases h
    | error e =>
      cases he : e.isValidation with
      | true =>
        simp only [he, Bool.and_self, if_true] at h
        cases h
      | false =>
        simp only [he, Bool.and_false, Bool.false_eq_true, if_false] at h
        cases h
        have hfull : ¬ m.Fits := Indexer.not_fits_of_build_error hbuild he
        rw [Memory.fits_iff_size_le] at hfull
        exact Nat.not_le.1 hfull

/-- What a readable line does to the run: it ends it if a text is missing, and otherwise only if the
taxonomy is full. -/
theorem line_of_isReadable {r r' : Run} {number : Nat} {bytes : Bytes} {failure? : Option Failure}
    (hbytes : IsReadable bytes) (h : r.line true number bytes = (r', failure?)) :
    (LacksText bytes ∧ r' = r ∧ ∃ violation,
      failure? = some ⟨.sourceDocument number, .source (.violation violation)⟩) ∨
    (¬ LacksText bytes ∧ (failure? = none ∨ 2 ^ 31 < r'.taxonomy.size)) := by
  obtain ⟨hlacks, violation, hread⟩ | ⟨hfull, d?, hread⟩ := @read_of_isReadable number bytes hbytes
  · rw [line_eq, effect, hread] at h
    cases h
    exact Or.inl ⟨hlacks, rfl, violation, rfl⟩
  · refine Or.inr ⟨hfull, ?_⟩
    cases failure? with
    | none => exact Or.inl rfl
    | some failure => exact Or.inr (full_of_stopped_by_document hread h)

theorem lines_append_of_none {skipInvalid : Bool} {r r₁ : Run} {number : Nat} {before : List Bytes}
    (h : lines skipInvalid r number before = (r₁, none)) (rest : List Bytes) :
    lines skipInvalid r number (before ++ rest) =
      lines skipInvalid r₁ (number + before.length) rest := by
  induction before generalizing r number with
  | nil =>
    cases h
    rfl
  | cons bytes before ih =>
    rcases hline : r.line skipInvalid number bytes with ⟨r₂, failure | failure⟩
    · rw [lines_cons_of_none hline] at h
      rw [List.cons_append, lines_cons_of_none hline, ih h, List.length_cons, Nat.add_right_comm,
        Nat.add_assoc]
    · rw [lines_cons_of_some hline] at h
      cases h

/-- A run over readable lines finishes if no text is missing anywhere, and otherwise it ends at the
first line in which one is, unless the taxonomy is full before. -/
theorem ends_of_lines {r r' : Run} {number : Nat} {ls : List Bytes} {failure? : Option Failure}
    (hls : ∀ bytes ∈ ls, IsReadable bytes) (h : lines true r number ls = (r', failure?)) :
    ((∀ bytes ∈ ls, ¬ LacksText bytes) ∧ failure? = none) ∨
    (∃ before bytes rest violation, ls = before ++ bytes :: rest ∧
      (∀ earlier ∈ before, ¬ LacksText earlier) ∧ LacksText bytes ∧
      lines true r number before = (r', none) ∧
      failure? =
        some ⟨.sourceDocument (number + before.length), .source (.violation violation)⟩) ∨
    (failure? ≠ none ∧ 2 ^ 31 < r'.taxonomy.size) := by
  induction ls generalizing r number with
  | nil =>
    cases h
    exact Or.inl ⟨by simp, rfl⟩
  | cons bytes rest ih =>
    obtain ⟨hbytes, hrest⟩ := List.forall_mem_cons.1 hls
    rcases hline : r.line true number bytes with ⟨r₁, _ | failure⟩
    · obtain ⟨_, _, _, hstop⟩ | ⟨hfull, _⟩ := line_of_isReadable hbytes hline
      · cases hstop
      rw [lines_cons_of_none hline] at h
      obtain ⟨hfulls, hfinished⟩ |
        ⟨before, bytes', rest', violation, rfl, hbefore, hlacks, hreached, hstop⟩ | hover :=
        ih hrest h
      · exact Or.inl ⟨List.forall_mem_cons.2 ⟨hfull, hfulls⟩, hfinished⟩
      · refine Or.inr (Or.inl ⟨bytes :: before, bytes', rest', violation, rfl,
          List.forall_mem_cons.2 ⟨hfull, hbefore⟩, hlacks, ?_, ?_⟩)
        · rw [lines_cons_of_none hline, hreached]
        · rw [hstop, List.length_cons, Nat.add_right_comm, Nat.add_assoc]
      · exact Or.inr (Or.inr hover)
    · rw [lines_cons_of_some hline] at h
      cases h
      obtain ⟨hlacks, rfl, violation, hstop⟩ | ⟨_, hstop | hover⟩ := line_of_isReadable hbytes hline
      · exact Or.inr (Or.inl ⟨[], bytes, rest, violation, rfl, by simp, hlacks, rfl, hstop⟩)
      · cases hstop
      · exact Or.inr (Or.inr ⟨Option.some_ne_none failure, hover⟩)

/-- Let a run over readable lines skip refused documents.  Wherever it comes to a document that the
indexer refuses, it counts it, remarks on it and goes on with the next line.  If the taxonomy does
not run out of ordinals, the run finishes exactly if no facet of the lines lacks a text; a run that
does not finish goes up to the first line with such a facet and fails there with a violation of a
rule, which it does not count. -/
theorem skips_refused_stops_at_lacking {r r' : Run} {number : Nat} {ls : List Bytes}
    {failure? : Option Failure} (hls : ∀ bytes ∈ ls, IsReadable bytes)
    (h : lines true r number ls = (r', failure?)) :
    (∀ before bytes rest r₁ d violation ix m, ls = before ++ bytes :: rest →
      lines true r number before = (r₁, none) →
      read (number + before.length) bytes = .ok (some d) →
      r₁.indexer.build Memory.taxonomy r₁.taxonomy d = (.error (.validation violation), ix, m) →
      lines true { r₁ with
        stderr := r₁.stderr ++ (s!"Skipping line {number + before.length}: " ++
          (Error.validation violation).message ++ "\n"),
        rejected := r₁.rejected + 1 } (number + before.length + 1) rest = (r', failure?)) ∧
    (r'.taxonomy.size ≤ 2 ^ 31 →
      (failure? = none ↔ ∀ bytes ∈ ls, ¬ LacksText bytes) ∧
      (failure? ≠ none → ∃ before bytes rest violation, ls = before ++ bytes :: rest ∧
        (∀ earlier ∈ before, ¬ LacksText earlier) ∧ LacksText bytes ∧
        lines true r number before = (r', none) ∧
        failure? =
          some ⟨.sourceDocument (number + before.length), .source (.violation violation)⟩)) := by
  refine ⟨fun before bytes rest r₁ d violation ix m hsplit hbefore hread hbuild => ?_,
    fun hsize => ?_⟩
  · rw [hsplit, lines_append_of_none hbefore,
      lines_cons_of_none (line_of_refused hread hbuild)] at h
    exact h
  · obtain ⟨hfull, hfinished⟩ | hstopped | ⟨_, hover⟩ := ends_of_lines hls h
    · exact ⟨iff_of_true hfinished hfull, fun hne => absurd hfinished hne⟩
    · refine ⟨?_, fun _ => hstopped⟩
      obtain ⟨before, bytes, rest, violation, rfl, _, hlacks, _, hstop⟩ := hstopped
      refine iff_of_false ?_ fun hfull =>
        hfull bytes (List.mem_append_right before List.mem_cons_self) hlacks
      rw [hstop]
      exact Option.some_ne_none _
    · exact absurd hover (Nat.not_lt.2 hsize)

/-- A line with one category of dates holds a consistent facet, whatever its path is. -/
theorem isReadable_datedLine {written : String} {path : List String}
    (h : source? (datedLine written) = some { facets := [{ dimension := "Date", path }] }) :
    IsReadable (datedLine written) := by
  refine Or.inr ⟨_, h, ?_⟩
  rw [List.forall_mem_singleton]
  refine ⟨Or.inl ⟨rfl, rfl⟩, fun text htext => ?_, fun hlabel => absurd rfl hlabel⟩
  cases htext

/-- The second document is refused, since nothing is said about dates, and the third line has an
empty component. -/
def brokenLines : List Bytes :=
  [datedLine "\"2020\"", datedLine "\"2020\",\"03\"", datedLine "\"\"", datedLine "\"2021\""]

theorem skips_refused_stops_at_lacking_brokenLines :
    (∀ bytes ∈ brokenLines, IsReadable bytes) ∧
    ∃ run failure, lines true (start {} {}) 1 brokenLines = (run, some failure) ∧
      run.rejected = 1 ∧ run.built = 1 ∧
      ∃ before bytes rest violation, brokenLines = before ++ bytes :: rest ∧
        (∀ earlier ∈ before, ¬ LacksText earlier) ∧ LacksText bytes ∧
        lines true (start {} {}) 1 before = (run, none) ∧
        failure = ⟨.sourceDocument (1 + before.length), .source (.violation violation)⟩ := by
  have hreadable : ∀ bytes ∈ brokenLines, IsReadable bytes := by
    simp only [brokenLines, List.forall_mem_cons]
    exact ⟨@isReadable_datedLine _ ["2020"] (by decide +kernel),
      @isReadable_datedLine _ ["2020", "03"] (by decide +kernel),
      @isReadable_datedLine _ [""] (by decide +kernel),
      @isReadable_datedLine _ ["2021"] (by decide +kernel), by simp⟩
  have hend : (lines true (start {} {}) 1 brokenLines).2 ≠ none ∧
      (lines true (start {} {}) 1 brokenLines).1.rejected = 1 ∧
      (lines true (start {} {}) 1 brokenLines).1.built = 1 ∧
      (lines true (start {} {}) 1 brokenLines).1.taxonomy.size ≤ 2 ^ 31 := by
    decide +kernel
  rcases hrun : lines true (start {} {}) 1 brokenLines with ⟨run, failure?⟩
  rw [hrun] at hend
  obtain ⟨hstopped, hrejected, hbuilt, hsize⟩ := hend
  obtain ⟨failure, rfl⟩ := Option.ne_none_iff_exists'.1 hstopped
  obtain ⟨_, hends⟩ := (skips_refused_stops_at_lacking hreadable hrun).2 hsize
  obtain ⟨before, bytes, rest, violation, hsplit, hbefore, hlacks, hreached, hfailure⟩ :=
    hends (Option.some_ne_none failure)
  exact ⟨hreadable, run, failure, rfl, hrejected, hbuilt, before, bytes, rest, violation, hsplit,
    hbefore, hlacks, hreached, Option.some.inj hfailure⟩

/-- An empty component ends the run at the first line, though it is the violation of a rule and the
lines are readable; nothing is counted, and the second line is never read. -/
theorem skips_refused_stops_at_lacking_emptyComponent :
    (∀ bytes ∈ [datedLine "\"\"", datedLine "\"2020\""], IsReadable bytes) ∧
      lines true (start {} {}) 1 [datedLine "\"\"", datedLine "\"2020\""] =
        (start {} {}, some ⟨.sourceDocument 1,
          .source (.violation (.emptyComponent 1 "Date"))⟩) := by
  constructor
  · simp only [List.forall_mem_cons]
    exact ⟨@isReadable_datedLine _ [""] (by decide +kernel),
      @isReadable_datedLine _ ["2020"] (by decide +kernel), by simp⟩
  · refine lines_cons_of_some ?_ _
    have hread : read 1 (datedLine "\"\"") = .error ⟨.sourceDocument 1,
        .source (.violation (.emptyComponent 1 "Date"))⟩ := by
      rfl
    rw [line_eq, effect, hread]
    rfl

end Command.Run

end FacetIndex
