/-
  Proofs/PathGrammar.lean --- which texts are stored paths.

  WHAT THIS FILE IS FOR.  A character is protected by the escape mark right before
  it, unless that mark is protected itself.  So the escape marks in a row pair up,
  and a character is protected if their number right before it is odd.  `Path.marksAtEnd`
  and `Path.Unprotected` say this of a text and a place in it, without the state of
  a reader.

  WHAT IS PROVED.

      Path.leavesOpen_iff             the reader ends in an open escape exactly if
                                      the marks at the end do not pair up
      Path.unprotected_iff            and its state tells which characters are
                                      protected
      Path.encode_components_eq_iff   which texts are the stored form of what is
                                      read from them
      Path.decode_iff_marks_pair      which texts are read, which of them are
                                      labels, and which are in stored form

  WHAT IS NOT SAID.  That a text should be in stored form to be read: the reader
  takes an escape mark before any character, and drops it.
-/
import Mathlib.Algebra.Ring.Parity
import Mathlib.Data.List.Induction
import Mathlib.Data.String.Basic
import FacetIndex.Proofs.Path

set_option autoImplicit false

namespace FacetIndex.Path

/-- The number of escape marks right at the end of a text. -/
def marksAtEnd (text : List Char) : Nat := (text.reverse.takeWhile (· = escapeMark)).length

/-- The character stands between these two parts of the text, and no escape mark protects it. -/
def Unprotected (text before : List Char) (c : Char) (after : List Char) : Prop :=
  text = before ++ c :: after ∧ Even (marksAtEnd before)

/-! ## Escape marks in a row -/

/-- The text ends in an open escape mark; `escaped` says that one stands right before the text. -/
def leavesOpen : (escaped : Bool) → List Char → Bool
  | escaped, [] => escaped
  | escaped, c :: cs => leavesOpen (!escaped && c = escapeMark) cs

theorem snd_split (current : List Char) (escaped : Bool) (text : List Char) :
    (split current escaped text).2 = leavesOpen escaped text := by
  fun_induction split current escaped text with
  | case1 => rfl
  | case2 current c cs ih => exact ih
  | case3 current cs ih => simpa [leavesOpen] using ih
  | case4 current cs hne ih => simpa [leavesOpen, hne] using ih
  | case5 current c cs hmark _ ih => simpa [leavesOpen, hmark] using ih

theorem leavesOpen_concat (escaped : Bool) (text : List Char) (c : Char) :
    leavesOpen escaped (text ++ [c]) = (!leavesOpen escaped text && c = escapeMark) := by
  induction text generalizing escaped with
  | nil => rfl
  | cons d ds ih => exact ih _

theorem marksAtEnd_concat (text : List Char) (c : Char) :
    marksAtEnd (text ++ [c]) = if c = escapeMark then marksAtEnd text + 1 else 0 := by
  simp only [marksAtEnd, List.reverse_append, List.reverse_singleton, List.singleton_append,
    List.takeWhile_cons, decide_eq_true_eq]
  split <;> rfl

/-- What stands behind a text is protected if the escape marks at its end do not pair up. -/
theorem leavesOpen_iff (text : List Char) :
    leavesOpen false text = true ↔ Odd (marksAtEnd text) := by
  induction text using List.reverseRecOn with
  | nil => simp [leavesOpen, marksAtEnd]
  | append_singleton ds c ih =>
    rw [leavesOpen_concat, marksAtEnd_concat]
    by_cases hc : c = escapeMark
    · simp only [hc, decide_true, Bool.and_true, Bool.not_eq_true', if_true, Nat.odd_add_one, ← ih,
        Bool.not_eq_true]
    · simp [hc]

theorem unprotected_iff {text before after : List Char} {c : Char} :
    Unprotected text before c after ↔
      text = before ++ c :: after ∧ leavesOpen false before = false := by
  rw [Unprotected, ← Nat.not_odd_iff_even, ← leavesOpen_iff, Bool.not_eq_true]

/-! ## What follows a mark -/

/-- Behind each unprotected `mark` of the text stands a character of this kind. -/
def Followed (escaped : Bool) (mark : Char) (good : Char → Prop) (text : List Char) : Prop :=
  ∀ before after, text = before ++ mark :: after → leavesOpen escaped before = false →
    ∃ c ∈ after.head?, good c

theorem followed_nil (escaped : Bool) (mark : Char) (good : Char → Prop) :
    Followed escaped mark good [] := by
  intro before after h
  simp at h

/-- The first character is a mark or not, and the rest has the other marks. -/
theorem followed_cons {escaped : Bool} {mark c : Char} {good : Char → Prop} {cs : List Char} :
    Followed escaped mark good (c :: cs) ↔
      (c = mark → escaped = false → ∃ d ∈ cs.head?, good d) ∧
        Followed (!escaped && c = escapeMark) mark good cs := by
  constructor
  · intro h
    refine ⟨?_, fun before after heq hopen => ?_⟩
    · rintro rfl hescaped
      exact h [] cs rfl hescaped
    · exact h (c :: before) after (by rw [heq, List.cons_append]) hopen
  · rintro ⟨hfirst, hrest⟩ before after heq hopen
    cases before with
    | nil =>
      obtain ⟨rfl, rfl⟩ := List.cons.inj heq
      exact hfirst rfl hopen
    | cons d before =>
      obtain ⟨rfl, hcs⟩ := List.cons.inj heq
      exact hrest before after hcs hopen

theorem followed_false_iff {mark : Char} {good : Char → Prop} {text : List Char} :
    Followed false mark good text ↔
      ∀ before after, Unprotected text before mark after → ∃ c ∈ after.head?, good c := by
  simp only [Followed, unprotected_iff, and_imp]

/-! ## Writing again what was read -/

/-- The text with the escape marks that protect no reserved character left out. -/
def tidy : (escaped : Bool) → List Char → List Char
  | _, [] => []
  | true, c :: cs => escape [c] ++ tidy false cs
  | false, c :: cs => if c = escapeMark then tidy true cs else c :: tidy false cs

theorem split_ne_nil (current : List Char) (escaped : Bool) (text : List Char) :
    (split current escaped text).1 ≠ [] := by
  fun_induction split current escaped text with
  | case1 => exact List.cons_ne_nil _ _
  | case2 current c cs ih => exact ih
  | case3 current cs ih => exact ih
  | case4 current cs hne ih => exact List.cons_ne_nil _ _
  | case5 current c cs _ _ ih => exact ih

theorem escape_singleton_of_plain {c : Char} (hd : c ≠ delimiter) (he : c ≠ escapeMark) :
    escape [c] = [c] := by
  simp [escape, isReserved, hd, he]

/-- Writing the components that are read makes the text tidy. -/
theorem join_split (current : List Char) (escaped : Bool) (text : List Char) :
    join (split current escaped text).1 = escape current.reverse ++ tidy escaped text := by
  fun_induction split current escaped text with
  | case1 current escaped => rw [join, tidy, List.append_nil]
  | case2 current c cs ih =>
    rw [ih, List.reverse_cons, escape_append, List.append_assoc, tidy]
  | case3 current cs ih => rw [ih, tidy, if_pos rfl]
  | case4 current cs hne ih =>
    have hjoin := join_append (List.cons_ne_nil current.reverse []) (split_ne_nil [] false cs)
    rw [List.singleton_append] at hjoin
    rw [hjoin, ih, tidy, if_neg hne]
    rfl
  | case5 current c cs hmark hcut ih =>
    rw [ih, List.reverse_cons, escape_append, List.append_assoc, tidy, if_neg hmark,
      escape_singleton_of_plain hcut hmark, List.singleton_append]

theorem toList_encode_components (s : String) :
    (encode (components s)).toList = tidy false s.toList := by
  have hback : String.toList ∘ String.ofList = id := funext fun cs => String.toList_ofList
  rw [encode, String.toList_ofList, components, List.map_map, hback, List.map_id, join_split]
  rfl

/-- Tidying only leaves characters out; the mark before an escaped text counts as part of it. -/
theorem tidy_sublist (escaped : Bool) (text : List Char) :
    List.Sublist (tidy escaped text) (if escaped then escapeMark :: text else text) := by
  induction text generalizing escaped with
  | nil => exact List.nil_sublist _
  | cons c cs ih =>
    have hkeep : List.Sublist (tidy false cs) cs := ih false
    cases escaped with
    | true =>
      rw [tidy, escape, if_pos rfl]
      split
      · exact (hkeep.cons_cons c).cons_cons escapeMark
      · exact (hkeep.cons_cons c).cons escapeMark
    | false =>
      rw [tidy]
      split
      next heq => exact heq ▸ ih true
      next => exact hkeep.cons_cons c

/-- A text is tidy if each escape mark that acts protects a reserved character. -/
theorem tidy_eq_iff (escaped : Bool) (text : List Char) :
    tidy escaped text = (if escaped then escapeMark :: text else text) ↔
      (escaped = true → ∃ c ∈ text.head?, isReserved c = true) ∧
        Followed escaped escapeMark (isReserved · = true) text := by
  induction text generalizing escaped with
  | nil => cases escaped <;> simp [tidy, followed_nil]
  | cons c cs ih =>
    have hfalse : tidy false cs = cs ↔ Followed false escapeMark (isReserved · = true) cs := by
      simpa using ih false
    cases escaped with
    | true =>
      rw [followed_cons]
      by_cases hc : isReserved c = true
      · simp [tidy, escape, hc, hfalse]
      · have hplain : c ≠ escapeMark := fun h => hc (by rw [h]; decide)
        simp [tidy, escape, hc, hplain]
    | false =>
      rw [followed_cons]
      by_cases hc : c = escapeMark
      · simpa [tidy, hc] using ih true
      · simp [tidy, hc, hfalse]

/-! ## Empty components -/

/-- No component is empty if a component follows wherever one is to begin: behind each delimiter,
and at the start of the text. -/
theorem forall_split_ne_nil_iff (current : List Char) (escaped : Bool) (text : List Char)
    (hclosed : leavesOpen escaped text = false) :
    (∀ part ∈ (split current escaped text).1, part ≠ []) ↔
      (current ≠ [] ∨ escaped = true ∨ ∃ c ∈ text.head?, c ≠ delimiter) ∧
        Followed escaped delimiter (· ≠ delimiter) text := by
  fun_induction split current escaped text with
  | case1 current escaped =>
    have hescaped : escaped = false := hclosed
    simp [followed_nil, hescaped]
  | case2 current c cs ih =>
    rw [ih (by simpa [leavesOpen] using hclosed), followed_cons]
    simp
  | case3 current cs ih =>
    have hplain : escapeMark ≠ delimiter := by decide
    rw [ih (by simpa [leavesOpen] using hclosed), followed_cons]
    simp [hplain]
  | case4 current cs hne ih =>
    have hrest := ih (by simpa [leavesOpen, hne] using hclosed)
    rw [List.forall_mem_cons, hrest, followed_cons]
    simp [hne]
  | case5 current c cs hmark hcut ih =>
    rw [ih (by simpa [leavesOpen, hmark] using hclosed), followed_cons]
    simp [hmark, hcut]

/-- No component is empty if the text has no delimiter where a component would be missing. -/
theorem starts_and_followed_iff {text : List Char} :
    ((∃ c ∈ text.head?, c ≠ delimiter) ∧ Followed false delimiter (· ≠ delimiter) text) ↔
      text ≠ [] ∧ (¬ ∃ after, Unprotected text [] delimiter after) ∧
        (¬ ∃ before, Unprotected text before delimiter []) ∧
        ¬ ∃ before after, Unprotected text before delimiter (delimiter :: after) ∧
          Unprotected text (before ++ [delimiter]) delimiter after := by
  rw [followed_false_iff]
  constructor
  · rintro ⟨⟨c, hc, hplain⟩, hfollowed⟩
    refine ⟨?_, ?_, ?_, ?_⟩
    · rintro rfl
      cases hc
    · rintro ⟨after, rfl, _⟩
      cases hc
      exact hplain rfl
    · rintro ⟨before, hlast⟩
      obtain ⟨d, hd, _⟩ := hfollowed before [] hlast
      cases hd
    · rintro ⟨before, after, hfirst, _⟩
      obtain ⟨d, hd, hne⟩ := hfollowed before _ hfirst
      cases hd
      exact hne rfl
  · rintro ⟨hne, hstart, hend, hadjacent⟩
    constructor
    · cases text with
      | nil => exact absurd rfl hne
      | cons c cs =>
        refine ⟨c, rfl, ?_⟩
        rintro rfl
        exact hstart ⟨cs, rfl, Even.zero⟩
    · intro before after hcut
      cases after with
      | nil => exact absurd ⟨before, hcut⟩ hend
      | cons c after =>
        refine ⟨c, rfl, ?_⟩
        rintro rfl
        -- A delimiter is no escape mark, so that what stands behind it is not protected.
        have hnext : Even (marksAtEnd (before ++ [delimiter])) := by
          rw [marksAtEnd_concat, if_neg (by decide)]
          exact Even.zero
        refine hadjacent ⟨before, after, hcut, ?_, hnext⟩
        rw [hcut.1, List.append_assoc, List.singleton_append]

/-! ## Decoding -/

theorem decode_eq_ok_iff {s : String} {p : List String} :
    decode s = .ok p ↔ Even (marksAtEnd s.toList) ∧ p = components s := by
  simp only [decode, snd_split, leavesOpen_iff, ← Nat.not_odd_iff_even]
  by_cases h : Odd (marksAtEnd s.toList)
  · simp [h]
  · simp [h, eq_comm]

theorem decode_eq_error_iff {s : String} {fault : FormatFault} :
    decode s = .error fault ↔ fault = .danglingEscape ∧ Odd (marksAtEnd s.toList) := by
  simp only [decode, snd_split, leavesOpen_iff]
  by_cases h : Odd (marksAtEnd s.toList)
  · simp [h, eq_comm]
  · simp [h]

theorem components_ne_nil (s : String) : components s ≠ [] := by
  rw [components, ne_eq, List.map_eq_nil_iff]
  exact split_ne_nil [] false s.toList

theorem encode_components_eq_iff {s : String} :
    encode (components s) = s ↔ ∀ before after, Unprotected s.toList before escapeMark after →
      ∃ c ∈ after.head?, isReserved c = true := by
  rw [← String.toList_inj, toList_encode_components, ← followed_false_iff]
  simpa using tidy_eq_iff false s.toList

theorem forall_components_ne_iff {s : String} (h : Even (marksAtEnd s.toList)) :
    (∀ c ∈ components s, c ≠ "") ↔
      (∃ c ∈ s.toList.head?, c ≠ delimiter) ∧
        Followed false delimiter (· ≠ delimiter) s.toList := by
  have hclosed : leavesOpen false s.toList = false := by
    rwa [← Bool.not_eq_true, leavesOpen_iff, Nat.not_odd_iff_even]
  have hparts := forall_split_ne_nil_iff [] false s.toList hclosed
  simpa [components, List.forall_mem_map] using hparts

end FacetIndex.Path

namespace FacetIndex.Label

/-- The components that make a label are those of the label. -/
theorem ofComponents_eq_ok_iff {p : List String} {l : Label} :
    ofComponents p = .ok l ↔ p = l.components := by
  constructor
  · intro h
    unfold ofComponents at h
    split at h
    · cases h
    · split at h
      · cases h
      · split at h
        · cases h
        · cases h
          rfl
  · rintro rfl
    exact ofComponents_components l

theorem decode_eq_ok_iff {s : String} {l : Label} :
    decode s = .ok l ↔ Path.decode s = .ok l.components := by
  unfold decode
  cases hread : Path.decode s with
  | error fault => simp
  | ok p =>
    rw [Except.ok.injEq, ← ofComponents_eq_ok_iff]
    cases hmake : ofComponents p with
    | error violation => simp [Except.mapError, hmake]
    | ok l' => simp [Except.mapError, hmake]

/-- Components that are not empty make a label if there are any. -/
theorem exists_components_eq_iff {p : List String} :
    (∃ l : Label, p = l.components) ↔ p ≠ [] ∧ ∀ c ∈ p, c ≠ "" := by
  constructor
  · rintro ⟨l, rfl⟩
    exact ⟨List.cons_ne_nil _ _, List.forall_mem_cons.2 ⟨l.dimension_ne, l.path_ne⟩⟩
  · rintro ⟨hne, hfull⟩
    cases p with
    | nil => exact absurd rfl hne
    | cons dimension path =>
      obtain ⟨hdimension, hpath⟩ := List.forall_mem_cons.1 hfull
      exact ⟨⟨dimension, path, hdimension, hpath⟩, rfl⟩

/-- A stored path is a label if none of its components is empty. -/
theorem exists_decode_eq_ok_iff {s : String} :
    (∃ l, decode s = .ok l) ↔ ∃ p, Path.decode s = .ok p ∧ ∀ c ∈ p, c ≠ "" := by
  constructor
  · rintro ⟨l, h⟩
    exact ⟨l.components, decode_eq_ok_iff.1 h, (exists_components_eq_iff.1 ⟨l, rfl⟩).2⟩
  · rintro ⟨p, hread, hfull⟩
    obtain ⟨_, rfl⟩ := Path.decode_eq_ok_iff.1 hread
    obtain ⟨l, hl⟩ := exists_components_eq_iff.2 ⟨Path.components_ne_nil s, hfull⟩
    exact ⟨l, decode_eq_ok_iff.2 (hl ▸ hread)⟩

end FacetIndex.Label

namespace FacetIndex.Path

/-- Which texts are read as paths, what is read from them, and which of them are labels.

A text is refused if the escape marks at its end do not pair up.  What is read from any other text
has components, and its stored form is read as the same path; the stored form is no longer than the
text, and it is the text if each escape mark that acts protects a delimiter or an escape mark.  The
text is a label if moreover no component is empty: it is not empty itself, and no unprotected
delimiter stands at its start, at its end, or right before another one. -/
theorem decode_iff_marks_pair (s : String) :
    (∀ fault, decode s = .error fault ↔ fault = .danglingEscape ∧ Odd (marksAtEnd s.toList)) ∧
    ((∃ p, decode s = .ok p) ↔ Even (marksAtEnd s.toList)) ∧
    (∀ p, decode s = .ok p →
      p ≠ [] ∧ decode (encode p) = .ok p ∧
      (encode p).length ≤ s.length ∧ (encode p).utf8ByteSize ≤ s.utf8ByteSize ∧
      (encode p = s ↔ ∀ before after, Unprotected s.toList before escapeMark after →
        ∃ c ∈ after.head?, c = delimiter ∨ c = escapeMark)) ∧
    ((∃ l, Label.decode s = .ok l) ↔ ∃ p, decode s = .ok p ∧ ∀ c ∈ p, c ≠ "") ∧
    ((∃ l, Label.decode s = .ok l) ↔
      Even (marksAtEnd s.toList) ∧ s ≠ "" ∧
      (¬ ∃ after, Unprotected s.toList [] delimiter after) ∧
      (¬ ∃ before, Unprotected s.toList before delimiter []) ∧
      ¬ ∃ before after, Unprotected s.toList before delimiter (delimiter :: after) ∧
        Unprotected s.toList (before ++ [delimiter]) delimiter after) := by
  refine ⟨fun fault => decode_eq_error_iff, ?_, fun p hp => ?_, Label.exists_decode_eq_ok_iff, ?_⟩
  · simp [decode_eq_ok_iff]
  · obtain ⟨_, rfl⟩ := decode_eq_ok_iff.1 hp
    have hsublist : List.Sublist (encode (components s)).toList s.toList := by
      rw [toList_encode_components]
      exact tidy_sublist false s.toList
    refine ⟨components_ne_nil s, decode_encode (components_ne_nil s), ?_, ?_, ?_⟩
    · rw [← String.length_toList, ← String.length_toList]
      exact hsublist.length_le
    · rw [← String.utf8Len_toList, ← String.utf8Len_toList]
      exact String.utf8Len_le_of_sublist hsublist
    · rw [encode_components_eq_iff]
      simp only [isReserved, Bool.or_eq_true, decide_eq_true_eq]
  · rw [Label.exists_decode_eq_ok_iff, ne_eq, ← String.toList_eq_nil_iff, ← starts_and_followed_iff]
    simp only [decode_eq_ok_iff, and_assoc, exists_and_left, exists_eq_left]
    exact and_congr_right forall_components_ne_iff

/-- An escape mark that is not needed, before a plain letter, and one that is, before another. -/
def sloppyText : String := "\x1ea\x1f\x1e\x1e"

/-- The first mark protects nothing that needs it, so that the stored form is another text. -/
theorem decode_iff_marks_pair_sloppyText :
    decode sloppyText = .ok ["a", "\x1e"] ∧
      decode (encode ["a", "\x1e"]) = .ok ["a", "\x1e"] ∧
      (encode ["a", "\x1e"]).length ≤ sloppyText.length ∧ encode ["a", "\x1e"] ≠ sloppyText := by
  have hread : decode sloppyText = .ok ["a", "\x1e"] := by decide +kernel
  obtain ⟨_, hagain, hlength, _, hsame⟩ := (decode_iff_marks_pair sloppyText).2.2.1 _ hread
  refine ⟨hread, hagain, hlength, fun h => ?_⟩
  have hfirst : Unprotected sloppyText.toList [] escapeMark ['a', '\x1f', '\x1e', '\x1e'] :=
    ⟨by decide +kernel, Even.zero⟩
  obtain ⟨c, hc, hreserved⟩ := hsame.1 h _ _ hfirst
  cases hc
  revert hreserved
  decide

end FacetIndex.Path
