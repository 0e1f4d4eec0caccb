/-
  Proofs/MemberDrillDown.lean --- what a search finds among members.

  WHAT THIS FILE IS FOR.  A member is indexed under the stored form of its full
  path, and under its dimension as it is.  A search asks for stored forms only.  The
  stored form of a bare dimension is the dimension itself if no character of it is
  reserved; otherwise a search for the dimension misses the document.

  WHAT IS PROVED.

      Path.encode_singleton_eq_iff
          the stored form of one component is the component exactly if no
          character of it is reserved
      Indexer.exists_longer_of_answers
          when a search for a bare dimension finds a document whose dimension is
          not the one asked for, that dimension is a longer text
      hasMember_drillDown
          what a search finds, and that all searches find what they should exactly
          if no dimension of a member needs protection
      hasMember_drillDown_delimitedDimension
          a dimension with a delimiter, which is not found

  WHAT IS NOT SAID.  The document has no categories, since a search cannot tell
  their terms from those of members; for categories see `Proofs/DrillDown.lean`.
-/
import FacetIndex.Proofs.Indexer
import FacetIndex.Proofs.Path
import FacetIndex.Proofs.Routing

set_option autoImplicit false

namespace FacetIndex

namespace Path

/-! ## Texts without reserved characters -/

/-- No character of the text needs protection. -/
def IsPlain (text : String) : Prop := ∀ c ∈ text.toList, isReserved c = false

theorem sublist_escape (cs : List Char) : List.Sublist cs (escape cs) := by
  induction cs with
  | nil => exact List.Sublist.refl []
  | cons c cs ih =>
    rw [escape]
    split
    · exact (ih.cons_cons c).cons escapeMark
    · exact ih.cons_cons c

/-- Escaping leaves a text alone if nothing in it needs protection, and else makes it longer. -/
theorem escape_eq_self_iff {cs : List Char} :
    escape cs = cs ↔ ∀ c ∈ cs, isReserved c = false := by
  induction cs with
  | nil => simp [escape]
  | cons c cs ih =>
    rw [List.forall_mem_cons, ← ih, escape]
    cases hc : isReserved c with
    | false => simp
    | true =>
      have hlength := (sublist_escape cs).length_le
      have hlonger : escapeMark :: c :: escape cs ≠ c :: cs := fun h => by
        have := congrArg List.length h
        simp only [List.length_cons] at this
        omega
      simpa using hlonger

theorem toList_encode_singleton (c : String) : (encode [c]).toList = escape c.toList := by
  rw [encode, String.toList_ofList]
  rfl

theorem encode_singleton_eq_iff {c : String} : encode [c] = c ↔ IsPlain c := by
  rw [← String.toList_inj, toList_encode_singleton, escape_eq_self_iff]
  rfl

/-- The stored form of a dimension that needs protection is longer than the dimension. -/
theorem length_lt_length_encode_singleton {c : String} (h : ¬ IsPlain c) :
    c.toList.length < (encode [c]).toList.length := by
  rw [toList_encode_singleton]
  have hsublist := sublist_escape c.toList
  refine Nat.lt_of_le_of_ne hsublist.length_le fun hlength => h ?_
  exact escape_eq_self_iff.1 (hsublist.eq_of_length hlength).symm

theorem not_isPlain_encode_singleton {c : String} (h : ¬ IsPlain c) : ¬ IsPlain (encode [c]) := by
  intro hplain
  refine h fun x hx => hplain x ?_
  rw [toList_encode_singleton]
  exact (sublist_escape c.toList).subset hx

/-- The stored form of several components has a delimiter. -/
theorem not_isPlain_encode_of_length {c d : String} {cs : List String} :
    ¬ IsPlain (encode (c :: d :: cs)) := by
  intro hplain
  have hmem : delimiter ∈ (encode (c :: d :: cs)).toList := by
    rw [encode, String.toList_ofList, List.map_cons, List.map_cons, join]
    · exact List.mem_append_right _ List.mem_cons_self
    · exact List.cons_ne_nil _ _
  cases hplain delimiter hmem

/-- The only path with a plain text as its stored form is the text itself. -/
theorem eq_singleton_of_encode_eq {p : List String} {c : String} (hp : p ≠ []) (hc : IsPlain c)
    (h : encode p = c) : p = [c] := by
  match p with
  | [] => exact absurd rfl hp
  | [d] =>
    have hd : IsPlain d := by
      by_contra hd
      exact not_isPlain_encode_singleton hd (h ▸ hc)
    rw [← h, encode_singleton_eq_iff.2 hd]
  | d :: e :: cs => exact absurd (h ▸ hc) not_isPlain_encode_of_length

end Path

/-! ## The terms of members -/

namespace Document

theorem dimension_ne_of_mem_members {d : Document} {m : String × String} (h : m ∈ d.members) :
    m.1 ≠ "" := by
  obtain ⟨f, _, hf⟩ := List.mem_filterMap.1 h
  cases f with
  | category label path_ne => cases hf
  | member dimension value dimension_ne value_ne =>
    cases hf
    exact dimension_ne
  | association label value path_ne => cases hf

/-- The document has a member that the label stands for: one on the dimension of the label, and with
the value that the label names, if it names one. -/
def HasMember (d : Document) (l : Label) : Prop :=
  ∃ m ∈ d.members, m.1 = l.dimension ∧ (l.path = [] ∨ l.path = [m.2])

instance (d : Document) (l : Label) : Decidable (d.HasMember l) :=
  inferInstanceAs (Decidable (∃ m ∈ d.members, _))

end Document

/-- The term that the search asks for is among the added ones. -/
def Addition.Answers (added : Addition) (query : Dimension.DrillDown) : Prop :=
  ⟨query.field, query.term⟩ ∈ added.terms

instance (added : Addition) (query : Dimension.DrillDown) : Decidable (added.Answers query) :=
  inferInstanceAs (Decidable (_ ∈ added.terms))

namespace Dimension.Store

theorem terms_of_categories_nil {store : Store} {d : Document} (h : d.categories = []) :
    store.terms d = (store.routeMembers d).flatMap fun group => memberTerms group.1 group.2 := by
  rw [terms, routeCategories, h]
  exact List.nil_append _

/-- The terms of the members of a document, whatever field they go to. -/
theorem mem_terms_iff {store : Store} {d : Document} (h : d.categories = []) {term : TextField} :
    term ∈ store.terms d ↔
      ∃ m ∈ d.members, (store.get m.1).indexField = term.name ∧
        (term.term = memberPath m ∨ term.term = m.1) := by
  rw [terms_of_categories_nil h]
  simp only [routeMembers, memberTerms, List.mem_flatMap]
  constructor
  · rintro ⟨group, hgroup, m, hm, hterm⟩
    obtain ⟨_, hfilter⟩ := Routing.mem_byField.1 hgroup
    rw [hfilter, List.mem_filter, decide_eq_true_eq] at hm
    refine ⟨m, hm.1, ?_⟩
    rcases List.mem_pair.1 hterm with rfl | rfl
    · exact ⟨hm.2, Or.inl rfl⟩
    · exact ⟨hm.2, Or.inr rfl⟩
  · rintro ⟨m, hm, hfield, hterm⟩
    refine ⟨(term.name, d.members.filter fun m => (store.get m.1).indexField = term.name),
      Routing.mem_byField.2 ⟨List.mem_map.2 ⟨m, hm, hfield⟩, rfl⟩, m, ?_, ?_⟩
    · exact List.mem_filter.2 ⟨hm, decide_eq_true hfield⟩
    · rcases hterm with h | h
      · exact List.mem_pair.2 (Or.inl (by rw [← h]))
      · exact List.mem_pair.2 (Or.inr (by rw [← h]))

end Dimension.Store

variable {σ : Type} {t : Taxonomy σ} {ix ix' : Indexer} {s s' : σ} {d : Document} {b : Built}

/-- A search finds the members with the path that it asks for, and those with a dimension that is
the stored form of that path in the same field. -/
theorem Indexer.answers_iff_of_build (hbuild : ix.build t s d = (.ok b, ix', s'))
    (hcategories : d.categories = []) (l : Label) :
    b.added.Answers (ix.settings.drillDown l.dimension l.path) ↔
      (∃ m ∈ d.members, l.components = [m.1, m.2]) ∨
        ∃ m ∈ d.members, (ix.settings.get m.1).indexField = ix.settings.fieldOf l ∧
          m.1 = l.encode := by
  have hpath : ∀ m : String × String, l.encode = memberPath m ↔ l.components = [m.1, m.2] :=
    fun m => ⟨Path.encode_injective (List.cons_ne_nil _ _) (List.cons_ne_nil _ _),
      congrArg Path.encode⟩
  rw [Addition.Answers, terms_of_build hbuild, Dimension.Store.mem_terms_iff hcategories]
  change (∃ m ∈ d.members, (ix.settings.get m.1).indexField = ix.settings.fieldOf l ∧
    (l.encode = memberPath m ∨ l.encode = m.1)) ↔ _
  constructor
  · rintro ⟨m, hm, hfield, hterm | hterm⟩
    · exact Or.inl ⟨m, hm, (hpath m).1 hterm⟩
    · exact Or.inr ⟨m, hm, hfield, hterm.symm⟩
  · rintro (⟨m, hm, hcomponents⟩ | ⟨m, hm, hfield, hterm⟩)
    · have hdimension : l.dimension = m.1 := (List.cons.inj hcomponents).1
      refine ⟨m, hm, ?_, Or.inl ((hpath m).2 hcomponents)⟩
      rw [Dimension.Store.fieldOf, hdimension]
    · exact ⟨m, hm, hfield, Or.inr hterm.symm⟩

/-- A search for a label is answered right if the dimensions need no protection. -/
theorem Indexer.answers_iff_hasMember_of_plain (hbuild : ix.build t s d = (.ok b, ix', s'))
    (hcategories : d.categories = []) (hplain : ∀ m ∈ d.members, Path.IsPlain m.1) (l : Label) :
    b.added.Answers (ix.settings.drillDown l.dimension l.path) ↔ d.HasMember l := by
  rw [answers_iff_of_build hbuild hcategories]
  constructor
  · rintro (⟨m, hm, hcomponents⟩ | ⟨m, hm, _, hterm⟩)
    · obtain ⟨hdimension, hpath⟩ := List.cons.inj hcomponents
      exact ⟨m, hm, hdimension.symm, Or.inr hpath⟩
    · have hsame := Path.eq_singleton_of_encode_eq (List.cons_ne_nil _ _) (hplain m hm) hterm.symm
      obtain ⟨hdimension, hpath⟩ := List.cons.inj hsame
      exact ⟨m, hm, hdimension.symm, Or.inl hpath⟩
  · rintro ⟨m, hm, hdimension, hpath | hpath⟩
    · refine Or.inr ⟨m, hm, by rw [Dimension.Store.fieldOf, hdimension], ?_⟩
      rw [Label.encode, Label.components, hpath, ← hdimension]
      exact (Path.encode_singleton_eq_iff.2 (hplain m hm)).symm
    · exact Or.inl ⟨m, hm, by rw [Label.components, hdimension, hpath]⟩

/-- If all searches are answered right, a dimension that needs protection comes with a longer one.
-/
theorem Indexer.exists_longer_of_answers (hbuild : ix.build t s d = (.ok b, ix', s'))
    (hcategories : d.categories = [])
    (h : ∀ l : Label, b.added.Answers (ix.settings.drillDown l.dimension l.path) ↔ d.HasMember l)
    {m : String × String} (hm : m ∈ d.members) (hplain : ¬ Path.IsPlain m.1) :
    ∃ n ∈ d.members, ¬ Path.IsPlain n.1 ∧ m.1.toList.length < n.1.toList.length := by
  have hne := Document.dimension_ne_of_mem_members hm
  have hnone : ∀ c ∈ ([] : List String), c ≠ "" := fun c hc => absurd hc List.not_mem_nil
  have hfound := (h ⟨m.1, [], hne, hnone⟩).2 ⟨m, hm, rfl, Or.inl rfl⟩
  obtain ⟨n, hn, hcomponents⟩ | ⟨n, hn, _, hterm⟩ :=
    (answers_iff_of_build hbuild hcategories _).1 hfound
  · cases (List.cons.inj hcomponents).2
  · -- The search for the bare dimension has found a dimension that looks like its stored form.
    have hform : n.1 = Path.encode [m.1] := hterm
    refine ⟨n, hn, ?_, ?_⟩
    · rw [hform]
      exact Path.not_isPlain_encode_singleton hplain
    · rw [hform]
      exact Path.length_lt_length_encode_singleton hplain

/-- If each exception in a list comes with a longer one, there is none. -/
theorem forall_mem_of_exists_longer {α : Type} {xs : List α} {good : α → Prop} (size : α → Nat)
    (h : ∀ x ∈ xs, ¬ good x → ∃ y ∈ xs, ¬ good y ∧ size x < size y) : ∀ x ∈ xs, good x := by
  intro x hx
  by_contra hbad
  have hfinite : {y | y ∈ xs ∧ ¬ good y}.Finite := xs.finite_toSet.subset fun y hy => hy.1
  obtain ⟨longest, ⟨hlongest, hexception⟩, hmax⟩ :=
    Set.exists_max_image _ size hfinite ⟨x, hx, hbad⟩
  obtain ⟨y, hy, hybad, hlonger⟩ := h longest hlongest hexception
  exact absurd (hmax y ⟨hy, hybad⟩) (Nat.not_le.2 hlonger)

/-- What a search finds among the members of a document without categories.  It finds the members
with the path that it asks for, and those whose dimension is the stored form of that path.  So the
searches for all labels find what the document has exactly if no dimension of a member needs
protection. -/
theorem hasMember_drillDown (hbuild : ix.build t s d = (.ok b, ix', s'))
    (hcategories : d.categories = []) :
    (∀ l : Label, b.added.Answers (ix.settings.drillDown l.dimension l.path) ↔
      (∃ m ∈ d.members, l.components = [m.1, m.2]) ∨
        ∃ m ∈ d.members, (ix.settings.get m.1).indexField = ix.settings.fieldOf l ∧
          m.1 = l.encode) ∧
    ((∀ l : Label, b.added.Answers (ix.settings.drillDown l.dimension l.path) ↔ d.HasMember l) ↔
      ∀ m ∈ d.members, Path.IsPlain m.1) := by
  refine ⟨Indexer.answers_iff_of_build hbuild hcategories, fun h => ?_, fun h =>
    Indexer.answers_iff_hasMember_of_plain hbuild hcategories h⟩
  exact forall_mem_of_exists_longer (·.1.toList.length) fun m hm hplain =>
    Indexer.exists_longer_of_answers hbuild hcategories h hm hplain

/-- The value holds the delimiter, and the dimension does not. -/
def delimitedValue : Document where
  indexable := [.facet (.member "Genre" "Sci\x1fFi" (by decide) (by decide))]

theorem hasMember_drillDown_delimitedValue :
    ∃ b ix', Indexer.build {} (Taxonomy.missing : Taxonomy Unit) () delimitedValue =
        (.ok b, ix', ()) ∧
      delimitedValue.categories = [] ∧
      ∀ l : Label, b.added.Answers (Dimension.Store.drillDown {} l.dimension l.path) ↔
        delimitedValue.HasMember l := by
  have hcategories : delimitedValue.categories = [] := rfl
  have hplain : ∀ m ∈ delimitedValue.members, Path.IsPlain m.1 := by
    intro m hm
    cases List.mem_singleton.1 hm
    exact Path.encode_singleton_eq_iff.1 (by decide +kernel)
  have hbuild : Indexer.build {} (Taxonomy.missing : Taxonomy Unit) () delimitedValue = _ := rfl
  exact ⟨_, _, hbuild, hcategories, (hasMember_drillDown hbuild hcategories).2.2 hplain⟩

/-- The dimension holds the delimiter. -/
def delimitedDimension : Document where
  indexable := [.facet (.member "a\x1fb" "x" (by decide) (by decide))]

/-- A search for the dimension misses the document, and a search for a category finds it that the
document does not have. -/
theorem hasMember_drillDown_delimitedDimension :
    ∃ b ix', Indexer.build {} (Taxonomy.missing : Taxonomy Unit) () delimitedDimension =
        (.ok b, ix', ()) ∧
      (∀ f ∈ delimitedDimension.facets, ∃ dimension value dimension_ne value_ne,
        f = .member dimension value dimension_ne value_ne) ∧
      delimitedDimension.HasMember ⟨"a\x1fb", [], by decide, by decide⟩ ∧
      ¬ b.added.Answers (Dimension.Store.drillDown {} "a\x1fb" []) ∧
      ¬ delimitedDimension.HasMember ⟨"a", ["b"], by decide, by decide⟩ ∧
      b.added.Answers (Dimension.Store.drillDown {} "a" ["b"]) := by
  refine ⟨_, _, rfl, ?_, by decide +kernel, by decide +kernel, by decide +kernel,
    by decide +kernel⟩
  intro f hf
  cases List.mem_singleton.1 hf
  exact ⟨_, _, _, _, rfl⟩

end FacetIndex
