/-
  Proofs/Printable.lean --- reading what is shown.

  WHAT THIS FILE IS FOR.  Two characters of stored paths have no key and no shape.
  They are shown as sequences, and what is typed has sequences for them, too.  A
  shown term is read as the term itself would be: the two characters come back, and
  nothing but sequences that the term held already makes a difference.

  WHAT IS PROVED.

      Printable.decode_encode
          reading what is shown for a term is reading the term
      Printable.decode_eq_self_or_shorter
          a term is read as itself exactly if it holds no sequence; otherwise what
          is read is shorter

  HOW IT GOES.  Reading replaces the sequences one kind after the other.  The lemmas
  on `replace` are by `Printable.sequence_induction`: a text begins with the
  sequence, or it does not.

  WHAT IS NOT SAID.  Whether the stored form of a path holds a sequence: that is
  settled in `Proofs/ShownTerms.lean`, by its components.
-/
import Mathlib.Data.List.Infix
import FacetIndex.Proofs.PathGrammar
import FacetIndex.Text.Printable

set_option autoImplicit false

namespace FacetIndex.Printable

/-- What is shown for a character: a backslash, `x1` and a digit. -/
def sequence (last : Char) : List Char := ['\\', 'x', '1', last]

/-- The text holds a sequence that is read as one character. -/
def HoldsSequence (text : String) : Prop :=
  sequence 'f' <:+: text.toList ∨ sequence 'e' <:+: text.toList

instance (text : String) : Decidable (HoldsSequence text) :=
  inferInstanceAs (Decidable (_ ∨ _))

/-- A character as it is shown if only `mark` is shown as a sequence. -/
def shownMark (last mark c : Char) : List Char := if c = mark then sequence last else [c]

/-! ## Replacing sequences -/

section Replace

variable {last mark : Char}

@[simp] theorem replace_sequence (last mark : Char) (rest : List Char) :
    replace last mark (sequence last ++ rest) = mark :: replace last mark rest := by
  simp [sequence, replace]

theorem replace_cons_of_not_isPrefix {c : Char} {rest : List Char}
    (h : ¬ sequence last <+: c :: rest) :
    replace last mark (c :: rest) = c :: replace last mark rest := by
  rw [replace.eq_def]
  split
  · rename_i heq
    cases heq
  · rename_i d rest' heq
    cases heq
    split
    · rename_i hlast
      exact absurd ⟨rest', by rw [sequence, hlast]; rfl⟩ h
    · rfl
  · rename_i heq
    cases heq
    rfl

theorem length_replace_le (last mark : Char) (cs : List Char) :
    (replace last mark cs).length ≤ cs.length := by
  fun_induction replace last mark cs with
  | case1 => exact Nat.le_refl 0
  | case2 rest ih =>
    simp only [List.length_cons] at ih ⊢
    omega
  | case3 d rest hne ih => exact Nat.succ_le_succ ih
  | case4 c rest hne ih => exact Nat.succ_le_succ ih

/-- A text without sequences stays as it is. -/
theorem replace_of_not_isInfix {cs : List Char} (h : ¬ sequence last <:+: cs) :
    replace last mark cs = cs := by
  induction cs with
  | nil => rfl
  | cons c cs ih =>
    rw [List.infix_cons_iff, not_or] at h
    rw [replace_cons_of_not_isPrefix h.1, ih h.2]

/-- A sequence is replaced by one character, and the text gets shorter. -/
theorem length_replace_lt {cs : List Char} (h : sequence last <:+: cs) :
    (replace last mark cs).length < cs.length := by
  induction cs with
  | nil => cases List.eq_nil_of_infix_nil h
  | cons c cs ih =>
    by_cases hstart : sequence last <+: c :: cs
    · obtain ⟨rest, hrest⟩ := hstart
      have hle := length_replace_le last mark rest
      rw [← hrest, replace_sequence, List.length_append]
      simp only [sequence, List.length_cons, List.length_nil]
      omega
    · rcases List.infix_cons_iff.1 h with h | h
      · exact absurd h hstart
      · rw [replace_cons_of_not_isPrefix hstart]
        exact Nat.succ_lt_succ (ih h)

end Replace

/-! ## Reading what was shown -/

/-- From left to right a text is made of sequences, and of characters at which no sequence begins.
-/
@[elab_as_elim]
theorem sequence_induction {last : Char} {motive : List Char → Prop} (nil : motive [])
    (sequence : ∀ rest, motive rest → motive (sequence last ++ rest))
    (cons : ∀ c rest, ¬ Printable.sequence last <+: c :: rest → motive rest → motive (c :: rest))
    (cs : List Char) : motive cs := by
  induction hlength : cs.length using Nat.strongRecOn generalizing cs with
  | ind n ih =>
    cases cs with
    | nil => exact nil
    | cons c cs =>
      by_cases h : Printable.sequence last <+: c :: cs
      · obtain ⟨rest, hrest⟩ := h
        rw [← hrest] at hlength ⊢
        refine sequence rest (ih rest.length ?_ rest rfl)
        rw [← hlength, List.length_append]
        simp [Printable.sequence]
      · exact cons c cs h (ih cs.length (by rw [← hlength]; exact Nat.lt_succ_self _) cs rfl)

section Shown

variable {last mark last' mark' : Char}

theorem flatMap_shownMark_of_not_mem {w : List Char} (h : mark' ∉ w) (rest : List Char) :
    (w ++ rest).flatMap (shownMark last' mark') = w ++ rest.flatMap (shownMark last' mark') := by
  induction w with
  | nil => rfl
  | cons a w ih =>
    obtain ⟨ha, hw⟩ := List.ne_and_not_mem_of_not_mem_cons h
    rw [List.cons_append, List.flatMap_cons, ih hw, shownMark, if_neg (Ne.symm ha)]
    rfl

/-- A text begins with `w` if what is shown for it does, unless a shown sequence could begin `w`. -/
theorem prefix_flatMap_shownMark_iff {w : List Char} (hw : '\\' ∉ w) (hmark : mark' ∉ w)
    (cs : List Char) : w <+: cs.flatMap (shownMark last' mark') ↔ w <+: cs := by
  induction w generalizing cs with
  | nil => exact iff_of_true List.nil_prefix List.nil_prefix
  | cons a w ih =>
    obtain ⟨ha, hw⟩ := List.ne_and_not_mem_of_not_mem_cons hw
    obtain ⟨ha', hmark⟩ := List.ne_and_not_mem_of_not_mem_cons hmark
    cases cs with
    | nil => rfl
    | cons c cs =>
      rw [List.flatMap_cons, shownMark]
      split
      · rename_i hc
        simp [sequence, List.cons_prefix_cons, Ne.symm ha, hc, Ne.symm ha']
      · rw [List.singleton_append, List.cons_prefix_cons, List.cons_prefix_cons, ih hw hmark]

/-- Another digit is no digit of the sequence. -/
theorem replace_sequence_of_ne (hlast' : last' ≠ '\\') (hne : last' ≠ last) (rest : List Char) :
    replace last mark (sequence last' ++ rest) = sequence last' ++ replace last mark rest := by
  have hdigit : ¬ sequence last <+: last' :: rest := by
    simp [sequence, List.cons_prefix_cons, Ne.symm hlast']
  simp [sequence, replace, hne, replace_cons_of_not_isPrefix hdigit]

variable (hlast : last ≠ '\\') (hmark' : mark' ∉ sequence last)
include hlast hmark'

/-- No sequence begins at a character because of what is shown behind it. -/
theorem not_prefix_cons_flatMap {c : Char} {cs : List Char} (h : ¬ sequence last <+: c :: cs) :
    ¬ sequence last <+: c :: cs.flatMap (shownMark last' mark') := by
  have hrest : '\\' ∉ ['x', '1', last] := by simp [hlast.symm]
  have hmark := (List.ne_and_not_mem_of_not_mem_cons hmark').2
  unfold sequence at h ⊢
  rwa [List.cons_prefix_cons, prefix_flatMap_shownMark_iff hrest hmark, ← List.cons_prefix_cons]

/-- What is shown for a mark is read as the mark. -/
theorem replace_flatMap_shownMark (cs : List Char) :
    replace last mark' (cs.flatMap (shownMark last mark')) = replace last mark' cs := by
  induction cs using @sequence_induction last with
  | nil => rfl
  | sequence rest ih =>
    rw [flatMap_shownMark_of_not_mem hmark', replace_sequence, replace_sequence, ih]
  | cons c rest h ih =>
    rw [List.flatMap_cons, shownMark, replace_cons_of_not_isPrefix h]
    split
    · rename_i hc
      rw [replace_sequence, ih, hc]
    · rw [List.singleton_append,
        replace_cons_of_not_isPrefix (not_prefix_cons_flatMap hlast hmark' h), ih]

/-- Showing one mark and reading the sequences of another do not get into each other's way. -/
theorem replace_flatMap_shownMark_of_ne (hlast' : last' ≠ '\\') (hne : last' ≠ last)
    (hmarks : mark ≠ mark') (cs : List Char) :
    replace last mark (cs.flatMap (shownMark last' mark')) =
      (replace last mark cs).flatMap (shownMark last' mark') := by
  induction cs using @sequence_induction last with
  | nil => rfl
  | sequence rest ih =>
    rw [flatMap_shownMark_of_not_mem hmark', replace_sequence, replace_sequence, ih,
      List.flatMap_cons, shownMark, if_neg hmarks]
    rfl
  | cons c rest h ih =>
    rw [List.flatMap_cons, replace_cons_of_not_isPrefix h, List.flatMap_cons]
    by_cases hc : c = mark'
    · rw [shownMark, if_pos hc, replace_sequence_of_ne hlast' hne, ih]
    · rw [shownMark, if_neg hc, List.singleton_append,
        replace_cons_of_not_isPrefix (not_prefix_cons_flatMap hlast hmark' h), ih,
        List.singleton_append]

end Shown

/-- Both characters are shown, whichever is shown first. -/
theorem flatMap_shown (cs : List Char) :
    cs.flatMap shown =
      (cs.flatMap (shownMark 'e' Path.escapeMark)).flatMap (shownMark 'f' Path.delimiter) := by
  rw [List.flatMap_assoc]
  refine List.flatMap_congr fun c _ => ?_
  have hmarks : Path.escapeMark ≠ Path.delimiter := by decide
  by_cases hd : c = Path.delimiter
  · subst hd
    rfl
  · by_cases he : c = Path.escapeMark
    · subst he
      rfl
    · simp [shown, shownMark, hd, he]

/-- A shown term is read as the term would be. -/
theorem decode_encode (term : String) : decode (encode term) = decode term := by
  have hread : ∀ cs : List Char,
      replace 'e' Path.escapeMark (replace 'f' Path.delimiter (cs.flatMap shown)) =
        replace 'e' Path.escapeMark (replace 'f' Path.delimiter cs) := by
    intro cs
    rw [flatMap_shown, replace_flatMap_shownMark (by decide) (by decide),
      replace_flatMap_shownMark_of_ne (by decide) (by decide) (by decide) (by decide) (by decide),
      replace_flatMap_shownMark (by decide) (by decide)]
  rw [decode, encode, String.toList_ofList, hread, decode]

/-- A text is read as it is, or as a shorter one if it holds a sequence. -/
theorem decode_eq_self_or_shorter (text : String) :
    (¬ HoldsSequence text ∧ decode text = text) ∨
      HoldsSequence text ∧ (decode text).toList.length < text.toList.length := by
  unfold HoldsSequence decode
  rw [String.toList_ofList]
  by_cases hd : sequence 'f' <:+: text.toList
  · refine Or.inr ⟨Or.inl hd, ?_⟩
    exact Nat.lt_of_le_of_lt (length_replace_le _ _ _) (length_replace_lt hd)
  · rw [replace_of_not_isInfix hd]
    by_cases he : sequence 'e' <:+: text.toList
    · exact Or.inr ⟨Or.inr he, length_replace_lt he⟩
    · refine Or.inl ⟨fun h => h.elim hd he, ?_⟩
      rw [replace_of_not_isInfix he, String.ofList_toList]

end FacetIndex.Printable
