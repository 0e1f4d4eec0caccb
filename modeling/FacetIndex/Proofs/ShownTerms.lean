/-
  Proofs/ShownTerms.lean --- shown terms of built documents.

  WHAT THIS FILE IS FOR.  The build command shows the terms of a document in
  printable form, and the components of a term that is typed in this form can be
  looked at.  A backslash is not protected, so a component in which a sequence stands
  already is not read back: what was text becomes a delimiter or an escape mark.

  WHAT IS PROVED.

      holdsSequence_encode_iff    the stored form of a path holds a sequence exactly
                                  if a component does
      decode_shown_path_iff       so a shown path is read back exactly if none does
      shown_terms_read_back       which terms a built document shows, and which of
                                  them are read back
      shown_terms_read_back_backslashedLabel
                                  a dimension with a sequence in it, which is not

  WHAT IS NOT SAID.  What is read instead, when a component holds a sequence, other
  than that it is not the path.
-/
import FacetIndex.Command.Inspect
import FacetIndex.Proofs.DrillDown
import FacetIndex.Proofs.Printable
import FacetIndex.Proofs.Run

set_option autoImplicit false

namespace FacetIndex

/-! ## Parts of a stored path -/

section Infix

variable {α : Type} {w as bs : List α} {x : α} (h : x ∉ w)
include h

theorem eq_nil_of_prefix_cons (hstart : w <+: x :: bs) : w = [] := by
  rcases List.prefix_cons_iff.1 hstart with rfl | ⟨t, rfl, _⟩
  · rfl
  · exact absurd List.mem_cons_self h

theorem infix_cons_iff_of_not_mem : w <:+: x :: bs ↔ w <:+: bs := by
  rw [List.infix_cons_iff]
  constructor
  · intro hinside
    rcases hinside with hstart | hbs
    · rw [eq_nil_of_prefix_cons h hstart]
      exact List.nil_infix
    · exact hbs
  · exact Or.inr

/-- What does not hold an element stands on one side of it. -/
theorem infix_append_cons_iff : w <:+: as ++ x :: bs ↔ w <:+: as ∨ w <:+: bs := by
  rw [List.infix_append_iff, infix_cons_iff_of_not_mem h]
  constructor
  · intro hinside
    obtain has | hbs | ⟨u, v, rfl, hu, hv⟩ := hinside
    · exact Or.inl has
    · exact Or.inr hbs
    · rw [eq_nil_of_prefix_cons (fun hx => h (List.mem_append_right u hx)) hv, List.append_nil]
      exact Or.inl hu.isInfix
  · intro hinside
    exact hinside.imp id Or.inl

end Infix

namespace Path

variable {w : List Char}

variable (hw : ∀ c ∈ w, isReserved c = false)
include hw

theorem not_mem_of_isReserved {c : Char} (hc : isReserved c = true) : c ∉ w := by
  intro hmem
  rw [hw c hmem] at hc
  cases hc

theorem prefix_escape_iff (cs : List Char) : w <+: escape cs ↔ w <+: cs := by
  induction w generalizing cs with
  | nil => exact iff_of_true List.nil_prefix List.nil_prefix
  | cons a w ih =>
    cases cs with
    | nil => rfl
    | cons c cs =>
      rw [escape]
      split
      · rename_i hc
        have hmark : a ≠ escapeMark :=
          (List.ne_and_not_mem_of_not_mem_cons (not_mem_of_isReserved hw rfl)).1.symm
        have hother : a ≠ c :=
          (List.ne_and_not_mem_of_not_mem_cons (not_mem_of_isReserved hw hc)).1.symm
        simp [List.cons_prefix_cons, hmark, hother]
      · rw [List.cons_prefix_cons, List.cons_prefix_cons, ih (List.forall_mem_cons.1 hw).2]

/-- Protecting a component changes nothing about the plain text in it. -/
theorem infix_escape_iff (cs : List Char) : w <:+: escape cs ↔ w <:+: cs := by
  induction cs with
  | nil => rfl
  | cons c cs ih =>
    by_cases hc : isReserved c = true
    · rw [escape, if_pos hc, infix_cons_iff_of_not_mem (not_mem_of_isReserved hw rfl),
        infix_cons_iff_of_not_mem (not_mem_of_isReserved hw hc),
        infix_cons_iff_of_not_mem (not_mem_of_isReserved hw hc), ih]
    · have hstart := prefix_escape_iff hw (c :: cs)
      rw [escape, if_neg hc] at hstart ⊢
      rw [List.infix_cons_iff, List.infix_cons_iff, hstart, ih]

/-- Plain text in a stored path is text of a component. -/
theorem infix_join_iff {parts : List (List Char)} (hne : parts ≠ []) :
    w <:+: join parts ↔ ∃ part ∈ parts, w <:+: part := by
  fun_induction join parts with
  | case1 => exact absurd rfl hne
  | case2 part => simp [infix_escape_iff hw]
  | case3 part parts hparts ih =>
    have hrest : parts ≠ [] := fun h => hparts h
    rw [infix_append_cons_iff (not_mem_of_isReserved hw rfl), infix_escape_iff hw, ih hrest,
      List.exists_mem_cons_iff]

end Path

namespace Printable

/-- A stored path holds a sequence if a component does. -/
theorem holdsSequence_encode_iff {p : List String} (hp : p ≠ []) :
    HoldsSequence (Path.encode p) ↔ ∃ c ∈ p, HoldsSequence c := by
  have hplain : ∀ last, Path.isReserved last = false →
      ∀ c ∈ sequence last, Path.isReserved c = false := by
    intro last hlast c hc
    simp only [sequence, List.mem_cons, List.not_mem_nil, or_false] at hc
    rcases hc with rfl | rfl | rfl | rfl
    · rfl
    · rfl
    · rfl
    · exact hlast
  have hne : p.map String.toList ≠ [] := by simpa using hp
  unfold HoldsSequence
  rw [Path.encode, String.toList_ofList, Path.infix_join_iff (hplain 'f' rfl) hne,
    Path.infix_join_iff (hplain 'e' rfl) hne]
  simp only [List.mem_map, exists_exists_and_eq_and, ← exists_or, ← and_or_left]

/-- The components of a shown path are read back exactly if none of them holds a sequence. -/
theorem decode_shown_path_iff {p : List String} (hp : p ≠ []) :
    Path.decode (decode (encode (Path.encode p))) = .ok p ↔ ∀ c ∈ p, ¬ HoldsSequence c := by
  have hholds : (∀ c ∈ p, ¬ HoldsSequence c) ↔ ¬ HoldsSequence (Path.encode p) := by
    rw [holdsSequence_encode_iff hp, not_exists]
    simp only [not_and]
  rw [hholds, decode_encode]
  obtain ⟨hplain, hsame⟩ | ⟨hsequence, hshorter⟩ := decode_eq_self_or_shorter (Path.encode p)
  · rw [hsame]
    exact iff_of_true (Path.decode_encode hp) hplain
  · refine iff_of_false (fun hread => ?_) (not_not_intro hsequence)
    -- Whatever is read from a text is stored in no more characters than the text has.
    obtain ⟨_, hcomponents⟩ := Path.decode_eq_ok_iff.1 hread
    have hsublist := Path.tidy_sublist false (decode (Path.encode p)).toList
    rw [← Path.toList_encode_components, ← hcomponents] at hsublist
    exact absurd hsublist.length_le (Nat.not_le.2 hshorter)

end Printable

/-! ## Reports -/

/-- The first components of a category of a document are a term in the field of the category. -/
theorem Dimension.Store.mem_terms_of_encodeFirst? {store : Store} {d : Document} {l : Label}
    (hl : l ∈ d.categories) {len : Nat} (hlen : 1 ≤ len) {term : String}
    (hterm : l.encodeFirst? len = some term) :
    ⟨store.fieldOf l, term⟩ ∈ store.terms d := by
  rw [Label.encodeFirst?, Option.ite_none_right_eq_some] at hterm
  obtain ⟨hle, hterm⟩ := hterm
  have hladder : term ∈ l.ladder := by
    refine List.mem_map.2 ⟨len - 1, List.mem_range.2 (by omega), ?_⟩
    rw [Nat.sub_add_cancel hlen]
    exact Option.some.inj hterm
  refine List.mem_append_left _ (List.mem_flatMap.2
    ⟨(store.fieldOf l, d.categories.filter (store.fieldOf · = store.fieldOf l)),
      Routing.mem_byField.2 ⟨List.mem_map_of_mem hl, rfl⟩, ?_⟩)
  refine List.mem_flatMap.2 ⟨l, List.mem_filter.2 ⟨hl, decide_eq_true rfl⟩, ?_⟩
  exact List.mem_map_of_mem hladder

namespace Command

/-- The terms that a report shows, each with its field. -/
def shownTerms (b : Built) : List (String × String) :=
  b.indexed.map fun f => (f.name, Printable.encode f.term)

theorem exists_report_eq (line : Nat) (b : Built) :
    ∃ stored, report line b = .record [
      ("line", .nat line),
      ("indexed", .array ((shownTerms b).map fun t =>
        .record [("field", .str t.1), ("term", .str t.2)])),
      ("stored", stored)] := by
  rw [report, shownTerms, List.map_map]
  exact ⟨_, rfl⟩

/-- A line that is read as a document and can be built is reported with its terms as they are shown,
and among these is each part of a category that begins with its dimension.  Its components are read
back from the term as it is shown exactly if none of them holds a sequence that is read as one
character; then they are what the command for looking at a typed path shows. -/
theorem shown_terms_read_back {skipInvalid : Bool} {r : Run} {number : Nat} {bytes : Bytes}
    {d : Document} {b : Built} {ix : Indexer} {m : Memory}
    (hread : Run.read number bytes = .ok (some d))
    (hbuild : r.indexer.build Memory.taxonomy r.taxonomy d = (.ok b, ix, m)) :
    r.line skipInvalid number bytes =
      ({ r with
          indexer := ix, taxonomy := m, built := r.built + 1,
          stdout := r.stdout ++ ((report number b).compact ++ "\n") }, none) ∧
    (∃ stored, report number b = .record [
      ("line", .nat number),
      ("indexed", .array ((shownTerms b).map fun t =>
        .record [("field", .str t.1), ("term", .str t.2)])),
      ("stored", stored)]) ∧
    ∀ l ∈ d.categories, ∀ (len : Nat) (term : String), 1 ≤ len → l.encodeFirst? len = some term →
      let shown := Printable.encode term
      (r.indexer.settings.fieldOf l, shown) ∈ shownTerms b ∧
      (Path.decode (Printable.decode shown) = .ok (l.components.take len) ↔
        ∀ c ∈ l.components.take len, ¬ Printable.HoldsSequence c) ∧
      ((∀ c ∈ l.components.take len, ¬ Printable.HoldsSequence c) →
        showComponents shown =
          .line (Json.array ((l.components.take len).map .str)).compact) := by
  refine ⟨Run.line_of_built hread hbuild, exists_report_eq number b, ?_⟩
  intro l hl len term hlen hterm shown
  have hmem : ⟨r.indexer.settings.fieldOf l, term⟩ ∈ b.indexed := by
    refine List.mem_append_right _ ?_
    rw [Indexer.terms_of_build hbuild]
    exact Dimension.Store.mem_terms_of_encodeFirst? hl hlen hterm
  have hform : term = Path.encode (l.components.take len) := by
    rw [Label.encodeFirst?, Option.ite_none_right_eq_some] at hterm
    exact (Option.some.inj hterm.2).symm
  have hne : l.components.take len ≠ [] := by
    obtain ⟨n, rfl⟩ := Nat.exists_eq_add_of_le' hlen
    exact l.take_components_ne_nil n
  have hback : Path.decode (Printable.decode shown) = .ok (l.components.take len) ↔
      ∀ c ∈ l.components.take len, ¬ Printable.HoldsSequence c := by
    rw [← Printable.decode_shown_path_iff hne, ← hform]
  refine ⟨List.mem_map_of_mem hmem, hback, fun hplain => ?_⟩
  rw [showComponents, hback.2 hplain]

/-- The source of a document with one category, directly below a dimension. -/
def categoryLine (dimension component : String) : Bytes :=
  ("\x7b\"facets\":[\x7b\"dim\":\"" ++ dimension ++ "\",\"path\":[\"" ++ component
    ++ "\"]\x7d]\x7d").toUTF8.data.toList

/-- An author whose name has a delimiter in it. -/
def delimitedAuthor : Label := ⟨"Writer", ["Bob\x1fJr"], by decide, by decide⟩

theorem shown_terms_read_back_delimitedAuthor :
    ∃ d b ix m, Run.read 1 (categoryLine "Writer" "Bob\\u001fJr") = .ok (some d) ∧
      Indexer.build {} Memory.taxonomy {} d = (.ok b, ix, m) ∧
      ("$facets", "Writer\\x1fBob\\x1e\\x1fJr") ∈ shownTerms b ∧
      showComponents "Writer\\x1fBob\\x1e\\x1fJr" =
        .line (Json.array [.str "Writer", .str "Bob\x1fJr"]).compact := by
  let d : Document := { indexable := [.facet (.category delimitedAuthor (by decide))] }
  have hread : Run.read 1 (categoryLine "Writer" "Bob\\u001fJr") = .ok (some d) := by rfl
  obtain ⟨_, hbuild⟩ := Indexer.exists_build_memory {} {} d ⟨_, rfl⟩ (by decide +kernel)
  have hterm : delimitedAuthor.encodeFirst? 2 = some "Writer\x1fBob\x1e\x1fJr" := by
    decide +kernel
  have hplain : ∀ c ∈ delimitedAuthor.components.take 2, ¬ Printable.HoldsSequence c := by
    decide +kernel
  have hshown : Printable.encode "Writer\x1fBob\x1e\x1fJr" = "Writer\\x1fBob\\x1e\\x1fJr" := by
    decide +kernel
  obtain ⟨_, _, hterms⟩ := @shown_terms_read_back false {} 1 _ d _ _ _ hread hbuild
  obtain ⟨hmem, _, hcomponents⟩ :=
    hterms delimitedAuthor List.mem_cons_self 2 _ (by decide) hterm
  rw [hshown] at hmem hcomponents
  exact ⟨_, _, _, _, hread, hbuild, hmem, hcomponents hplain⟩

/-- A dimension that holds a backslash, `x1` and `e` as they are. -/
def backslashedLabel : Label := ⟨"x\\x1e", ["a"], by decide, by decide⟩

/-- The term of this dimension is shown as it is, and what is typed so ends in an open escape. -/
theorem shown_terms_read_back_backslashedLabel :
    ∃ d b ix m, Run.read 1 (categoryLine "x\\\\x1e" "a") = .ok (some d) ∧
      Indexer.build {} Memory.taxonomy {} d = (.ok b, ix, m) ∧
      backslashedLabel ∈ d.categories ∧
      (∃ term, backslashedLabel.encodeFirst? 1 = some term ∧ Printable.encode term = "x\\x1e") ∧
      ("$facets", "x\\x1e") ∈ shownTerms b ∧
      Path.decode (Printable.decode "x\\x1e") = .error .danglingEscape := by
  let d : Document := { indexable := [.facet (.category backslashedLabel (by decide))] }
  have hread : Run.read 1 (categoryLine "x\\\\x1e" "a") = .ok (some d) := by rfl
  obtain ⟨_, hbuild⟩ := Indexer.exists_build_memory {} {} d ⟨_, rfl⟩ (by decide +kernel)
  refine ⟨d, _, _, _, hread, hbuild, List.mem_cons_self, ⟨_, rfl, by decide +kernel⟩, ?_, ?_⟩
  · change _ ∈ (Dimension.Store.terms {} d).map fun f => (f.name, Printable.encode f.term)
    decide +kernel
  · decide +kernel

end Command

end FacetIndex
