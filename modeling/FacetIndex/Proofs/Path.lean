/-
  Proofs/Path.lean --- reading back an encoded path.

  WHAT THIS FILE IS FOR.  Cutting an encoded path at its delimiters gives back its
  components, whatever characters they are made of: delimiters and escape marks
  inside a component are protected.

  WHAT IS PROVED.

      Path.split_join          cutting what was joined, by induction over the
                               characters of the first component
      Path.decode_encode       a path with components is read back
      Path.encode_injective    so two paths with the same stored form are the same
      Path.encode_reads_back   both readers, all paths, and all labels

  WHAT IS NOT SAID.  Texts that are no stored forms: `Proofs/PathGrammar.lean` has
  all texts, those that are refused included.
-/
import FacetIndex.Label

set_option autoImplicit false

namespace FacetIndex.Path

/-- The components are read back one after the other, and no escape is left open. -/
theorem split_join (current c : List Char) (cs : List (List Char)) :
    split current false (join (c :: cs)) = ((current.reverse ++ c) :: cs, false) := by
  induction cs generalizing current c with
  | nil =>
    have hread := split_escape current c []
    rw [List.append_nil] at hread
    rw [join, hread, split, List.reverse_append, List.reverse_reverse]
  | cons d ds ih =>
    have hjoin : join (c :: d :: ds) = escape c ++ delimiter :: join (d :: ds) := rfl
    have hplain : ¬ delimiter = escapeMark := by decide
    rw [hjoin, split_escape, split, if_neg hplain, if_pos rfl, ih, List.reverse_append,
      List.reverse_reverse, List.reverse_nil, List.nil_append]

theorem split_toList_encode {p : List String} (h : p ≠ []) :
    split [] false (encode p).toList = (p.map String.toList, false) := by
  cases p with
  | nil => exact absurd rfl h
  | cons c cs =>
    rw [encode, String.toList_ofList, List.map_cons, split_join, List.reverse_nil, List.nil_append]

theorem components_encode {p : List String} (h : p ≠ []) : components (encode p) = p := by
  have hback : String.ofList ∘ String.toList = id := funext fun s => String.ofList_toList
  rw [components, split_toList_encode h, List.map_map, hback, List.map_id]

/-- No stored form of a path is refused, and reading it gives the path. -/
theorem decode_encode {p : List String} (h : p ≠ []) : decode (encode p) = .ok p := by
  rw [decode, split_toList_encode h, components_encode h]
  exact if_neg Bool.false_ne_true

/-- Two paths with one stored form are the same, unless one of them has no components. -/
theorem encode_injective {p q : List String} (hp : p ≠ []) (hq : q ≠ [])
    (h : encode p = encode q) : p = q := by
  rw [← components_encode hp, h, components_encode hq]

end FacetIndex.Path

namespace FacetIndex.Label

/-- The components of a label break no rule of labels. -/
theorem ofComponents_components (l : Label) : ofComponents l.components = .ok l := by
  have hnone : l.path.findIdx? (· = "") = none := by simpa using l.path_ne
  unfold components ofComponents
  dsimp only
  rw [dif_neg l.dimension_ne]
  split
  · rename_i i hsome
    rw [hnone] at hsome
    cases hsome
  · rfl

/-- A label is read back from its stored form. -/
theorem decode_encode (l : Label) : decode l.encode = .ok l := by
  have hread : Path.decode l.encode = .ok l.components :=
    Path.decode_encode (List.cons_ne_nil l.dimension l.path)
  unfold decode
  rw [hread]
  dsimp only
  rw [ofComponents_components]
  rfl

end FacetIndex.Label

namespace FacetIndex.Path

/-- A path with components is read back from its stored form, whichever reader is used, and the
stored form ends in no open escape.  So the stored form tells paths apart, and labels are read back
from theirs. -/
theorem encode_reads_back :
    (∀ p : List String, p ≠ [] →
      (split [] false (encode p).toList).2 = false ∧
        decode (encode p) = .ok p ∧ components (encode p) = p) ∧
    (∀ p q : List String, p ≠ [] → q ≠ [] → encode p = encode q → p = q) ∧
    ∀ l : Label, Label.decode l.encode = .ok l := by
  refine ⟨fun p hp => ⟨?_, decode_encode hp, components_encode hp⟩, ?_, Label.decode_encode⟩
  · rw [split_toList_encode hp]
  · exact fun p q hp hq h => encode_injective hp hq h

/-- Reserved characters stand at both ends of components, and a component is empty. -/
def reservedPath : List String := ["a\x1e", "", "\x1f\x1eb", "\x1f"]

theorem encode_reads_back_reservedPath :
    reservedPath ≠ [] ∧
      encode reservedPath = "a\x1e\x1e\x1f\x1f\x1e\x1f\x1e\x1eb\x1f\x1e\x1f" ∧
      decode "a\x1e\x1e\x1f\x1f\x1e\x1f\x1e\x1eb\x1f\x1e\x1f" = .ok reservedPath := by
  have hne : reservedPath ≠ [] := List.cons_ne_nil _ _
  have hform : encode reservedPath = "a\x1e\x1e\x1f\x1f\x1e\x1f\x1e\x1eb\x1f\x1e\x1f" := by
    decide +kernel
  obtain ⟨_, hread, _⟩ := encode_reads_back.1 reservedPath hne
  rw [hform] at hread
  exact ⟨hne, hform, hread⟩

end FacetIndex.Path
