/-
  Proofs/PathPrefix.lean --- prefixes of stored paths.

  WHAT THIS FILE IS FOR.  A search for everything below a category looks for terms
  that start with the one of the category.  That is right if stored forms show which
  path lies below which.

  WHAT IS PROVED.

      Path.encode_append          paths one behind the other are stored with a
                                  delimiter between them
      Path.isPrefix_iff           a path starts with another exactly if it is stored
                                  in the same way, or as the other with a delimiter
                                  and more behind it
      Path.encode_keeps_prefixes  both, and the same for the ancestors of a label

  The direction from texts to paths is the one with an argument: a delimiter inside
  a component does not count as one, since it is protected, so that whoever reads
  the longer text is behind whole components when the shorter text ends.

  WHAT IS NOT SAID.  A text may start with another without a delimiter behind it;
  then the paths have nothing to do with one another.
-/
import FacetIndex.Proofs.DrillDown

set_option autoImplicit false

namespace FacetIndex.Path

/-- A delimiter ends a component, and the next one begins behind it. -/
theorem split_delimiter (current rest : List Char) :
    split current false (delimiter :: rest) =
      (current.reverse :: (split [] false rest).1, (split [] false rest).2) := by
  rw [split, if_neg (by decide), if_pos rfl]

/-- Stored components with a delimiter behind them are read back, whatever comes then. -/
theorem split_join_append (current c : List Char) (cs : List (List Char)) (rest : List Char) :
    split current false (join (c :: cs) ++ delimiter :: rest) =
      ((current.reverse ++ c) :: cs ++ (split [] false rest).1, (split [] false rest).2) := by
  induction cs generalizing current c with
  | nil =>
    rw [join, split_escape, split_delimiter, List.reverse_append, List.reverse_reverse]
    rfl
  | cons d ds ih =>
    have hjoin : join (c :: d :: ds) = escape c ++ delimiter :: join (d :: ds) := rfl
    rw [hjoin, List.append_assoc, List.cons_append, split_escape, split_delimiter, ih,
      List.reverse_append, List.reverse_reverse]
    rfl

variable {p q : List String}

/-- Two paths one behind the other are stored with a delimiter between them. -/
theorem encode_append (hp : p ≠ []) (hq : q ≠ []) :
    encode (p ++ q) = encode p ++ String.singleton delimiter ++ encode q := by
  have hp : p.map String.toList ≠ [] := by simpa using hp
  have hq : q.map String.toList ≠ [] := by simpa using hq
  rw [← String.toList_inj, encode, List.map_append, join_append hp hq]
  simp [encode]

/-- If the stored form of a path goes on with a delimiter, then the path goes on behind it. -/
theorem eq_append_of_encode_eq (hp : p ≠ []) (hq : q ≠ []) {rest : String}
    (h : encode q = encode p ++ String.singleton delimiter ++ rest) : q = p ++ components rest := by
  obtain ⟨c, cs, rfl⟩ := List.exists_cons_of_ne_nil hp
  have htext : (encode q).toList =
      join (c.toList :: cs.map String.toList) ++ delimiter :: rest.toList := by
    rw [h]
    simp [encode]
  have hback : String.ofList ∘ String.toList = id := funext fun s => String.ofList_toList
  rw [← components_encode hq, components, htext, split_join_append, components]
  simp [hback]

/-- A path starts with the components of another if its stored form does so, up to a delimiter. -/
theorem isPrefix_iff (hp : p ≠ []) (hq : q ≠ []) :
    p <+: q ↔ encode p = encode q ∨
      ∃ rest, encode q = encode p ++ String.singleton delimiter ++ rest := by
  constructor
  · rintro ⟨path, rfl⟩
    by_cases hpath : path = []
    · rw [hpath, List.append_nil]
      exact Or.inl rfl
    · exact Or.inr ⟨encode path, encode_append hp hpath⟩
  · rintro (hsame | ⟨rest, hrest⟩)
    · rw [encode_injective hp hq hsame]
    · exact ⟨components rest, (eq_append_of_encode_eq hp hq hrest).symm⟩

end FacetIndex.Path

namespace FacetIndex.Label

/-- The label of the first components is stored as these components. -/
theorem exists_ancestor?_encode {l : Label} {len : Nat} (hpos : 1 ≤ len) (hle : len ≤ l.length) :
    ∃ a, l.ancestor? len = some a ∧ a.components = l.components.take len ∧
      l.encodeFirst? len = some a.encode := by
  obtain ⟨n, rfl⟩ := Nat.exists_eq_add_of_le' hpos
  have hn : n ≤ l.path.length := Nat.le_of_succ_le_succ hle
  refine ⟨l.cut n, ancestor?_eq_some_iff.2 ⟨n, rfl, hn, rfl⟩, rfl, ?_⟩
  rw [encodeFirst?, if_pos hle]
  rfl

/-- The terms of a label are the stored forms of its first components, of one, of two and so on. -/
theorem map_some_ladder (l : Label) :
    l.ladder.map some = (List.range l.length).map fun n => l.encodeFirst? (n + 1) := by
  rw [ladder, List.map_map]
  refine List.map_congr_left fun n hn => ?_
  rw [encodeFirst?, if_pos (Nat.succ_le_of_lt (List.mem_range.1 hn))]
  rfl

end FacetIndex.Label

namespace FacetIndex.Path

/-- Stored forms show which path lies below which.

Paths one behind the other are stored with a delimiter between them, and a path starts with another
exactly if it is stored in the same way, or as the other with a delimiter and more behind it.  The
terms of a label are the stored forms of its ancestors, the shortest first; the stored form of the
label starts with each of them in this way, and no two of them are the same. -/
theorem encode_keeps_prefixes :
    (∀ p q : List String, p ≠ [] → q ≠ [] →
      encode (p ++ q) = encode p ++ String.singleton delimiter ++ encode q ∧
      (p <+: q ↔ encode p = encode q ∨
        ∃ rest, encode q = encode p ++ String.singleton delimiter ++ rest)) ∧
    ∀ l : Label,
      (∀ len, 1 ≤ len → len ≤ l.length → ∃ a, l.ancestor? len = some a ∧
        l.encodeFirst? len = some a.encode ∧
        (a.encode = l.encode ∨
          ∃ rest, l.encode = a.encode ++ String.singleton delimiter ++ rest)) ∧
      l.ladder.map some = ((List.range l.length).map fun n => l.encodeFirst? (n + 1)) ∧
      l.ladder.Nodup := by
  refine ⟨fun p q hp hq => ⟨encode_append hp hq, isPrefix_iff hp hq⟩, fun l => ⟨?_, ?_, ?_⟩⟩
  · intro len hpos hle
    obtain ⟨a, ha, hcomponents, hfirst⟩ := Label.exists_ancestor?_encode hpos hle
    have hstart : a.components <+: l.components := by
      rw [hcomponents]
      exact List.take_prefix _ _
    exact ⟨a, ha, hfirst,
      (isPrefix_iff (List.cons_ne_nil _ _) (List.cons_ne_nil _ _)).1 hstart⟩
  · exact l.map_some_ladder
  · exact l.nodup_ladder

/-- A delimiter that begins the second component, and one that stands inside a single component. -/
theorem encode_keeps_prefixes_reservedEnds :
    (["a\x1e"] : List String) ≠ [] ∧ (["a\x1e", "\x1fb"] : List String) ≠ [] ∧
      encode ["a\x1e", "\x1fb"] = "a\x1e\x1e\x1f\x1e\x1fb" ∧ ["a\x1e"] <+: ["a\x1e", "\x1fb"] ∧
      encode ["a\x1e\x1fb"] = "a\x1e\x1e\x1e\x1fb" ∧
      ¬ ∃ rest, "a\x1e\x1e\x1e\x1fb" = "a\x1e\x1e" ++ String.singleton delimiter ++ rest := by
  have hne : ∀ c (cs : List String), c :: cs ≠ [] := fun c cs => List.cons_ne_nil c cs
  have hshort : encode ["a\x1e"] = "a\x1e\x1e" := by decide +kernel
  have hlong : encode ["a\x1e", "\x1fb"] = "a\x1e\x1e\x1f\x1e\x1fb" := by decide +kernel
  have hsingle : encode ["a\x1e\x1fb"] = "a\x1e\x1e\x1e\x1fb" := by decide +kernel
  have hbelow := (encode_keeps_prefixes.1 ["a\x1e"] ["a\x1e", "\x1fb"] (hne _ _) (hne _ _)).2
  have hbeside := (encode_keeps_prefixes.1 ["a\x1e"] ["a\x1e\x1fb"] (hne _ _) (hne _ _)).2
  rw [hshort, hlong] at hbelow
  rw [hshort, hsingle] at hbeside
  refine ⟨hne _ _, hne _ _, hlong, hbelow.2 (Or.inr ⟨"\x1e\x1fb", ?_⟩), hsingle, fun h => ?_⟩
  · decide +kernel
  · have hstart := hbeside.2 (Or.inr h)
    revert hstart
    decide

end FacetIndex.Path
