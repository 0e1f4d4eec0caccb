/-
  Proofs/TypedPaths.lean --- typed paths.

  WHAT THIS FILE IS FOR.  The components of a path can be typed, with sequences for
  the two characters that have no key.  The stored form of the components is shown
  with sequences again, and typing what is shown gives the components.

  WHAT IS PROVED.

      infix_of_infix_replace       what holds no character that is put in was there
                                   before
      not_holdsSequence_decode     so replacing the sequences leaves none over, and
                                   it makes none
      typed_path_reads_back        typed components are stored, shown and typed again
                                   without a loss

  WHAT IS NOT SAID.  Components that do not come from typing may hold a sequence, and
  these are not read back: see `Proofs/ShownTerms.lean`.
-/
import FacetIndex.Proofs.ShownTerms

set_option autoImplicit false

namespace FacetIndex.Printable

variable {last mark : Char} {w cs : List Char}

/-- What begins a text behind the replacements began it before. -/
theorem prefix_of_prefix_replace (hmark : mark ∉ w) (h : w <+: replace last mark cs) :
    w <+: cs := by
  induction w generalizing cs with
  | nil => exact List.nil_prefix
  | cons a w ih =>
    obtain ⟨ha, hrest⟩ := List.ne_and_not_mem_of_not_mem_cons hmark
    cases cs with
    | nil => exact h
    | cons c cs =>
      by_cases hstart : sequence last <+: c :: cs
      · obtain ⟨rest, hsplit⟩ := hstart
        rw [← hsplit, replace_sequence, List.cons_prefix_cons] at h
        exact absurd h.1.symm ha
      · rw [replace_cons_of_not_isPrefix hstart, List.cons_prefix_cons] at h
        exact List.cons_prefix_cons.2 ⟨h.1, ih hrest h.2⟩

/-- What a text holds behind the replacements it held before. -/
theorem infix_of_infix_replace (hmark : mark ∉ w) (h : w <:+: replace last mark cs) :
    w <:+: cs := by
  induction cs using @sequence_induction last with
  | nil => exact h
  | sequence rest ih =>
    rw [replace_sequence, infix_cons_iff_of_not_mem hmark] at h
    exact (ih h).trans (List.suffix_append _ rest).isInfix
  | cons c rest hstart ih =>
    have hkept : replace last mark (c :: rest) = c :: replace last mark rest :=
      replace_cons_of_not_isPrefix hstart
    rw [hkept] at h
    rcases List.infix_cons_iff.1 h with hbegin | hlater
    · rw [← hkept] at hbegin
      exact (prefix_of_prefix_replace hmark hbegin).isInfix
    · exact (ih hlater).trans (List.suffix_cons c rest).isInfix

/-- No sequence is left over. -/
theorem not_infix_replace (hmark : mark ∉ sequence last) :
    ¬ sequence last <:+: replace last mark cs := by
  induction cs using @sequence_induction last with
  | nil => exact fun h => by cases List.eq_nil_of_infix_nil h
  | sequence rest ih => rwa [replace_sequence, infix_cons_iff_of_not_mem hmark]
  | cons c rest hstart ih =>
    have hkept : replace last mark (c :: rest) = c :: replace last mark rest :=
      replace_cons_of_not_isPrefix hstart
    rw [hkept, List.infix_cons_iff, ← hkept]
    rintro (hbegin | hlater)
    · exact hstart (prefix_of_prefix_replace hmark hbegin)
    · exact ih hlater

/-- What is read from typed text holds no sequence. -/
theorem not_holdsSequence_decode (typed : String) : ¬ HoldsSequence (decode typed) := by
  unfold HoldsSequence decode
  rw [String.toList_ofList]
  rintro (hd | he)
  · exact not_infix_replace (by decide) (infix_of_infix_replace (by decide) hd)
  · exact not_infix_replace (by decide) he

end FacetIndex.Printable

namespace FacetIndex.Command

/-- Typed components are stored, shown and typed again without a loss.

None of them holds a sequence once it was read.  What is shown for their stored form is read as this
stored form, from which the components are read, and they are what looking at the shown path gives.
-/
theorem typed_path_reads_back {typed : List String} (h : typed ≠ []) :
    let components := typed.map Printable.decode
    let printed := Printable.encode (Path.encode components)
    (∀ c ∈ components, ¬ Printable.HoldsSequence c) ∧
      showPath typed = .line printed ∧
      Printable.decode printed = Path.encode components ∧
      Path.decode (Printable.decode printed) = .ok components ∧
      showComponents printed = .line (Json.array (components.map .str)).compact := by
  intro components printed
  have hne : components ≠ [] := by simpa [components] using h
  have hplain : ∀ c ∈ components, ¬ Printable.HoldsSequence c := by
    intro c hc
    obtain ⟨text, _, rfl⟩ := List.mem_map.1 hc
    exact Printable.not_holdsSequence_decode text
  have hback : Path.decode (Printable.decode printed) = .ok components :=
    (Printable.decode_shown_path_iff hne).2 hplain
  have hstored : Printable.decode printed = Path.encode components := by
    rw [Printable.decode_encode]
    rcases Printable.decode_eq_self_or_shorter (Path.encode components) with
      ⟨_, hsame⟩ | ⟨hholds, _⟩
    · exact hsame
    · obtain ⟨c, hc, hsequence⟩ := (Printable.holdsSequence_encode_iff hne).1 hholds
      exact absurd hsequence (hplain c hc)
  refine ⟨hplain, rfl, hstored, hback, ?_⟩
  rw [showComponents, hback]

/-- A sequence behind the beginning of another one, and an author with a delimiter in the name. -/
theorem typed_path_reads_back_halfSequence :
    (["Au\\x1\\x1ethor", "Bob\\x1fJr"] : List String) ≠ [] ∧
      ["Au\\x1\\x1ethor", "Bob\\x1fJr"].map Printable.decode = ["Au\\x1\x1ethor", "Bob\x1fJr"] ∧
      showPath ["Au\\x1\\x1ethor", "Bob\\x1fJr"] =
        .line "Au\\x1\\x1e\\x1ethor\\x1fBob\\x1e\\x1fJr" ∧
      Path.decode (Printable.decode "Au\\x1\\x1e\\x1ethor\\x1fBob\\x1e\\x1fJr") =
        .ok ["Au\\x1\x1ethor", "Bob\x1fJr"] := by
  have hne : (["Au\\x1\\x1ethor", "Bob\\x1fJr"] : List String) ≠ [] := List.cons_ne_nil _ _
  have hread : ["Au\\x1\\x1ethor", "Bob\\x1fJr"].map Printable.decode =
      ["Au\\x1\x1ethor", "Bob\x1fJr"] := by decide +kernel
  have hprinted : Printable.encode (Path.encode ["Au\\x1\x1ethor", "Bob\x1fJr"]) =
      "Au\\x1\\x1e\\x1ethor\\x1fBob\\x1e\\x1fJr" := by decide +kernel
  obtain ⟨_, hshown, _, hback, _⟩ := typed_path_reads_back hne
  rw [hread, hprinted] at hshown hback
  exact ⟨hne, hread, hshown, hback⟩

end FacetIndex.Command
