/-
  Proofs/Admission.lean --- which documents are admitted.

  WHAT THIS FILE IS FOR.  The indexer looks at the facets of a document one after
  the other and keeps a running state.  `Proofs/Rules.lean` has the rules, said of
  all facets at once.  Here the two are brought together.

  THE INVARIANT.  `Admission.Describes` links a state to the facets before it: it
  knows which dimensions of single values have their value, and which kind of
  association each index field has.  Looking at one facet does what the rules say
  (`Admission.Describes.judges`, one lemma for each kind of facet), and a pass over
  all of them is an induction (`Admission.Describes.examineAll_cases`).

  THE MAIN THEOREM.  `admitted_iff_keepRules`: a document is admitted exactly if
  its facets keep the rules.  Otherwise the first facet that breaks one is
  reported, for the one rule it breaks; the taxonomy is asked nothing, and nothing
  changes.  If they do keep the rules, building reports none, unless the taxonomy
  reports one itself.

  WHAT IS NOT SAID.  An admitted document may still fail to be built, when the
  taxonomy fails.  That is the matter of `Proofs/Outage.lean`.
-/
import FacetIndex.Proofs.Refusal
import FacetIndex.Proofs.Rules

set_option autoImplicit false

namespace FacetIndex

namespace Admission

open Facet (Breaks Clean KeepRules)

variable {store : Dimension.Store} {tracked : KindTable} {a : Admission} {fs : List Facet}

/-- The state says which dimensions have their only value after some facets, and which kind of
association each index field has. -/
structure Describes (store : Dimension.Store) (a : Admission) (fs : List Facet) : Prop where
  seen : ∀ dimension, dimension ∈ a.seen ↔ store.Taken fs dimension
  kinds : ∀ field, a.kinds[field]? = (store.kindsAt field fs).head?

theorem describes_empty (store : Dimension.Store) : Describes store {} [] where
  seen dimension := by
    unfold Dimension.Store.Taken
    simp only [List.not_mem_nil, false_and, exists_false, and_false]
  kinds field := by
    unfold Dimension.Store.kindsAt
    rw [List.filterMap_nil, List.head?_nil]
    exact Std.TreeMap.getElem?_emptyc

/-- A value is refused exactly if its dimension has its only one. -/
theorem Describes.see_cases (h : a.Describes store fs) (dimension : String) :
    (store.Taken fs dimension ∧
      a.see (store.get dimension) dimension = .error (.repeatedDimension dimension)) ∨
    ¬ store.Taken fs dimension ∧ ∃ a', a.see (store.get dimension) dimension = .ok a' ∧
      ∀ f : Facet, f.valued? = some dimension → (∀ field, f.kindAt? store field = none) →
        a'.Describes store (fs ++ [f]) := by
  have hkinds : ∀ f : Facet, (∀ field, f.kindAt? store field = none) → ∀ field,
      a.kinds[field]? = (store.kindsAt field (fs ++ [f])).head? := by
    intro f hf field
    rw [store.kindsAt_concat, hf field, Option.toList_none, List.append_nil]
    exact h.kinds field
  unfold see
  cases hmulti : (store.get dimension).multiValued with
  | true =>
    refine Or.inr ⟨fun htaken => ?_, a, if_pos rfl, fun f hvalued hkind => ⟨?_, hkinds f hkind⟩⟩
    · cases htaken.1.symm.trans hmulti
    · intro other
      rw [h.seen, Dimension.Store.taken_concat, hvalued]
      refine ⟨Or.inl, fun hother => hother.resolve_right fun ⟨hsingle, heq⟩ => ?_⟩
      rw [Option.some.inj heq] at hmulti
      cases hsingle.symm.trans hmulti
  | false =>
    rw [if_neg Bool.false_ne_true]
    by_cases hseen : dimension ∈ a.seen
    · exact Or.inl ⟨(h.seen dimension).1 hseen, if_pos hseen⟩
    · refine Or.inr ⟨fun htaken => hseen ((h.seen dimension).2 htaken), _, if_neg hseen,
        fun f hvalued hkind => ⟨fun other => ?_, hkinds f hkind⟩⟩
      rw [List.mem_cons, h.seen, Dimension.Store.taken_concat, hvalued, or_comm]
      refine or_congr Iff.rfl ⟨?_, fun ⟨_, heq⟩ => (Option.some.inj heq).symm⟩
      rintro rfl
      exact ⟨hmulti, rfl⟩

/-- Noting the kind of an association describes it, too, if its index field has no other kind. -/
theorem Describes.insert (h : a.Describes store fs) {label : Label} {value : Association.Value}
    (path_ne : label.path ≠ [])
    (hsame : ∀ current, (store.kindsAt (store.fieldOf label) fs).head? = some current →
      current = value.kind) :
    Describes store { a with kinds := a.kinds.insert (store.fieldOf label) value.kind }
      (fs ++ [.association label value path_ne]) := by
  refine ⟨fun dimension => ?_, fun field => ?_⟩
  · rw [h.seen, Dimension.Store.taken_concat, or_iff_left]
    exact fun hvalued => nomatch hvalued.2
  · rw [Std.TreeMap.getElem?_insert, store.kindsAt_concat, List.head?_append]
    by_cases hfield : store.fieldOf label = field
    · subst hfield
      have hkind : (Facet.association label value path_ne).kindAt? store (store.fieldOf label) =
          some value.kind := if_pos rfl
      rw [if_pos Std.ReflCmp.compare_self, hkind]
      cases hhead : (store.kindsAt (store.fieldOf label) fs).head? with
      | none => rfl
      | some current =>
        rw [hsame current hhead]
        rfl
    · have hkind : (Facet.association label value path_ne).kindAt? store field = none :=
        if_neg hfield
      have hcompare : compare (store.fieldOf label) field ≠ .eq := fun heq =>
        hfield (Std.LawfulEqCmp.eq_of_compare heq)
      rw [if_neg hcompare, hkind, h.kinds, Option.toList_none, List.head?_nil, Option.or_none]

/-- An association is refused exactly if its index field is of another kind. -/
theorem Describes.attach_cases (h : a.Describes store fs) (tracked : KindTable) (label : Label)
    (value : Association.Value) (path_ne : label.path ≠ []) :
    let field := store.fieldOf label
    let known := (store.kindsAt field fs).head?.or tracked[field]?
    (∃ current, known = some current ∧ current ≠ value.kind ∧
      a.attach tracked field value.kind = .error (.mixedKinds current value.kind field)) ∨
    (∀ current, known = some current → current = value.kind) ∧
      ∃ a', a.attach tracked field value.kind = .ok a' ∧
        a'.Describes store (fs ++ [.association label value path_ne]) := by
  intro field known
  have hknown : a.kinds[field]?.or tracked[field]? = known := by rw [h.kinds]
  have hinsert : (∀ current, known = some current → current = value.kind) →
      Describes store { a with kinds := a.kinds.insert field value.kind }
        (fs ++ [.association label value path_ne]) := by
    intro hsame
    apply h.insert
    intro current hcurrent
    apply hsame
    simp only [known, field, hcurrent, Option.some_or]
  unfold attach
  rw [hknown]
  cases hcases : known with
  | none =>
    rw [hcases] at hinsert
    have hsame : ∀ current, none = some current → current = value.kind := by
      intro current hcurrent
      cases hcurrent
    exact Or.inr ⟨hsame, _, rfl, hinsert hsame⟩
  | some current =>
    rw [hcases] at hinsert
    by_cases hkind : current = value.kind
    · have hsame : ∀ other, some current = some other → other = value.kind := by
        intro other hother
        cases hother
        exact hkind
      exact Or.inr ⟨hsame, _, if_pos hkind, hinsert hsame⟩
    · exact Or.inl ⟨current, rfl, hkind, if_neg hkind⟩

/-- Looking at a facet does what the rules say: the facet is reported for a rule it breaks after
those before it, or it breaks none and the state then describes it, too. -/
def Judges (store : Dimension.Store) (tracked : KindTable) (a : Admission) (fs : List Facet)
    (f : Facet) : Prop :=
  (∃ violation, a.examine store tracked f = .error violation ∧
    f.Breaks store tracked fs violation) ∨
  ∃ a', a.examine store tracked f = .ok a' ∧
    (∀ violation, ¬ f.Breaks store tracked fs violation) ∧ a'.Describes store (fs ++ [f])

theorem Describes.judges_category (h : a.Describes store fs) (tracked : KindTable) (label : Label)
    (path_ne : label.path ≠ []) : a.Judges store tracked fs (.category label path_ne) := by
  obtain ⟨htaken, hsee⟩ | ⟨hfresh, a', hsee, hdescribes⟩ := h.see_cases label.dimension
  · exact Or.inl ⟨_, by simp only [examine, hsee], .repeated rfl htaken⟩
  · by_cases hdeep : 1 < label.path.length ∧ (store.get label.dimension).hierarchical = false
    · refine Or.inl ⟨_, ?_, .deep hfresh hdeep.1 hdeep.2⟩
      simp only [examine, hsee, hdeep.1, hdeep.2, decide_true, Bool.not_false, Bool.and_self,
        if_true]
    · have hguard : (decide (1 < label.path.length) &&
          !(store.get label.dimension).hierarchical) = false := by
        rw [Bool.eq_false_iff]
        intro hguard
        rw [Bool.and_eq_true, decide_eq_true_eq, Bool.not_eq_true'] at hguard
        exact hdeep hguard
      refine Or.inr ⟨a', ?_, ?_, hdescribes _ rfl fun field => rfl⟩
      · simp only [examine, hsee, hguard, Bool.false_eq_true, if_false]
      · intro violation hbreaks
        cases hbreaks with
        | repeated valued taken => exact hfresh (Option.some.inj valued ▸ taken)
        | deep fresh long flat => exact hdeep ⟨long, flat⟩

theorem Describes.judges_member (h : a.Describes store fs) (tracked : KindTable)
    {dimension value : String} (dimension_ne : dimension ≠ "") (value_ne : value ≠ "") :
    a.Judges store tracked fs (.member dimension value dimension_ne value_ne) := by
  obtain ⟨htaken, hsee⟩ | ⟨hfresh, a', hsee, hdescribes⟩ := h.see_cases dimension
  · exact Or.inl ⟨_, hsee, .repeated rfl htaken⟩
  · refine Or.inr ⟨a', hsee, ?_, hdescribes _ rfl fun field => rfl⟩
    intro violation hbreaks
    cases hbreaks with
    | repeated valued taken => exact hfresh (Option.some.inj valued ▸ taken)

theorem Describes.judges_association (h : a.Describes store fs) (tracked : KindTable)
    (label : Label) (value : Association.Value) (path_ne : label.path ≠ []) :
    a.Judges store tracked fs (.association label value path_ne) := by
  unfold Judges examine
  cases hhierarchical : (store.get label.dimension).hierarchical with
  | true => exact Or.inl ⟨_, by simp only [hhierarchical, if_true], .hierarchical hhierarchical⟩
  | false =>
    cases hcount : (store.get label.dimension).requireCount with
    | true =>
      refine Or.inl ⟨_, ?_, .counted hhierarchical hcount⟩
      simp only [hhierarchical, hcount, Bool.false_eq_true, if_false, if_true]
    | false =>
      simp only [hhierarchical, hcount, Bool.false_eq_true, if_false]
      obtain ⟨current, hknown, hdiffers, hattach⟩ | ⟨hsame, a', hattach, hdescribes⟩ :=
        h.attach_cases tracked label value path_ne
      · exact Or.inl ⟨_, hattach, .mixed hhierarchical hcount hknown hdiffers⟩
      · refine Or.inr ⟨a', hattach, ?_, hdescribes⟩
        intro violation hbreaks
        cases hbreaks with
        | repeated valued taken => cases valued
        | hierarchical hierarchical => cases hhierarchical.symm.trans hierarchical
        | counted flat counted => cases hcount.symm.trans counted
        | mixed flat uncounted known differs => exact differs (hsame _ known)

theorem Describes.judges (h : a.Describes store fs) (tracked : KindTable) (f : Facet) :
    a.Judges store tracked fs f := by
  cases f with
  | category label path_ne => exact h.judges_category tracked label path_ne
  | member dimension value dimension_ne value_ne =>
    exact h.judges_member tracked dimension_ne value_ne
  | association label value path_ne => exact h.judges_association tracked label value path_ne

/-- The pass over the facets stops at the first that breaks a rule, or it describes them all. -/
theorem Describes.examineAll_cases {before : List Facet} (h : a.Describes store before)
    (hclean : Clean store tracked before) (fs : List Facet) :
    (∃ violation, examineAll store tracked a fs = .error violation ∧
      ∃ first f rest, before ++ fs = first ++ f :: rest ∧ Clean store tracked first ∧
        f.Breaks store tracked first violation) ∨
    ∃ a', examineAll store tracked a fs = .ok a' ∧ Clean store tracked (before ++ fs) ∧
      a'.Describes store (before ++ fs) := by
  induction fs generalizing a before with
  | nil =>
    rw [List.append_nil]
    exact Or.inr ⟨a, rfl, hclean, h⟩
  | cons f fs ih =>
    unfold examineAll
    obtain ⟨violation, hexamine, hbreaks⟩ | ⟨a', hexamine, hkeeps, hdescribes⟩ :=
      h.judges tracked f
    · rw [hexamine]
      exact Or.inl ⟨violation, rfl, before, f, fs, rfl, hclean, hbreaks⟩
    · rw [hexamine, List.append_cons]
      exact ih hdescribes (Facet.clean_concat.2 ⟨hclean, hkeeps⟩)

end Admission

namespace Document

open Facet (Breaks Clean KeepRules)

/-- A document is refused for its first facet that breaks a rule, or it keeps the rules and its
kinds are those of its index fields. -/
theorem examine_cases (store : Dimension.Store) (tracked : KindTable) (d : Document) :
    (∃ violation, d.examine store tracked = .error violation ∧
      ∃ before f after, d.facets = before ++ f :: after ∧ Clean store tracked before ∧
        f.Breaks store tracked before violation) ∨
    ∃ kinds, d.examine store tracked = .ok kinds ∧ KeepRules store tracked d.facets ∧
      ∀ field, kinds[field]? = (store.kindsAt field d.facets).head? := by
  unfold examine
  obtain ⟨violation, hall, hfirst⟩ | ⟨a, hall, hclean, hdescribes⟩ :=
    (Admission.describes_empty store).examineAll_cases (Facet.clean_nil store tracked) d.facets
  · rw [hall]
    exact Or.inl ⟨violation, rfl, hfirst⟩
  · rw [hall]
    exact Or.inr ⟨a.kinds, rfl, Facet.keepRules_iff_clean.2 hclean, hdescribes.kinds⟩

variable {store : Dimension.Store} {tracked : KindTable} {d : Document}

/-- A facet that breaks a rule keeps the document from being admitted. -/
theorem not_keepRules_of_breaks {before after : List Facet} {f : Facet} {violation : Violation}
    (hfacets : d.facets = before ++ f :: after)
    (hbreaks : f.Breaks store tracked before violation) :
    ¬ KeepRules store tracked d.facets := by
  intro hkeep
  exact Facet.keepRules_iff_clean.1 hkeep before f after violation hfacets hbreaks

theorem keepRules_of_examine_ok {kinds : KindTable} (h : d.examine store tracked = .ok kinds) :
    KeepRules store tracked d.facets ∧
      ∀ field, kinds[field]? = (store.kindsAt field d.facets).head? := by
  obtain ⟨violation, hexamine, _⟩ | ⟨kinds', hexamine, hkeep, hkinds⟩ :=
    examine_cases store tracked d
  · cases hexamine.symm.trans h
  · cases hexamine.symm.trans h
    exact ⟨hkeep, hkinds⟩

end Document

variable {σ : Type}

/-- A document is admitted exactly if its facets keep the rules.  If they do not, the first facet
that breaks a rule after those before it is what building reports, for the one rule it breaks; the
taxonomy is asked nothing, and it and the indexer stay as they were.  If they do, building reports
no rule, unless the taxonomy does. -/
theorem admitted_iff_keepRules (ix : Indexer) (t : Taxonomy σ) (s : σ) (log : List Exchange)
    (d : Document) :
    ((∃ kinds, d.examine ix.settings ix.kinds = .ok kinds) ↔
      Facet.KeepRules ix.settings ix.kinds d.facets) ∧
    (¬ Facet.KeepRules ix.settings ix.kinds d.facets →
      ∃ before f after violation, d.facets = before ++ f :: after ∧
        Facet.Clean ix.settings ix.kinds before ∧
        f.Breaks ix.settings ix.kinds before violation ∧
        (∀ other, f.Breaks ix.settings ix.kinds before other → other = violation) ∧
        ix.build t s d = (.error (.validation violation), ix, s) ∧
        ix.build t.recording (s, log) d = (.error (.validation violation), ix, s, log)) ∧
    (Facet.KeepRules ix.settings ix.kinds d.facets → t.ReportsNoRule →
      ∀ violation, (ix.build t s d).1 ≠ .error (.validation violation)) := by
  obtain ⟨violation, hexamine, before, f, after, hfacets, hclean, hbreaks⟩ |
    ⟨kinds, hexamine, hkeep, _⟩ := Document.examine_cases ix.settings ix.kinds d
  · have hbroken := Document.not_keepRules_of_breaks hfacets hbreaks
    refine ⟨iff_of_false ?_ hbroken, fun _ => ?_, fun hkeep => absurd hkeep hbroken⟩
    · rintro ⟨kinds, hkinds⟩
      cases hexamine.symm.trans hkinds
    · exact ⟨before, f, after, violation, hfacets, hclean, hbreaks,
        fun _ hother => hother.unique hbreaks, Indexer.build_of_examine_error hexamine,
        Indexer.build_of_examine_error hexamine⟩
  · refine ⟨iff_of_true ⟨kinds, hexamine⟩ hkeep, fun hbroken => absurd hkeep hbroken,
      fun _ ht violation hrefused => ?_⟩
    have hrefused : ix.build t s d = (.error (.validation violation), (ix.build t s d).2) :=
      Prod.ext hrefused rfl
    cases hexamine.symm.trans (Indexer.examine_of_build_refused ht hrefused)

/-- A document with a date of two components, where nothing is said about dates. -/
def datedDocument : Document where
  indexable := [
    .facet (.category ⟨"Author", ["Bob"], by decide, by decide⟩ (by decide)),
    .facet (.category ⟨"Date", ["2020", "03"], by decide, by decide⟩ (by decide))]

/-- Without its second component the date is admitted. -/
def datedByYear : Document where
  indexable := [.facet (.category ⟨"Date", ["2020"], by decide, by decide⟩ (by decide))]

theorem admitted_iff_keepRules_datedDocument :
    ¬ Facet.KeepRules {} ∅ datedDocument.facets ∧
    ∃ violation,
      Indexer.build {} Memory.taxonomy {} datedDocument = (.error (.validation violation), {}, {}) ∧
      Indexer.build {} Memory.taxonomy.recording ({}, []) datedDocument =
        (.error (.validation violation), {}, {}, []) ∧
      ∀ violation, (Indexer.build {} Memory.taxonomy {} datedByYear).1 ≠
        .error (.validation violation) := by
  have hrules : ¬ Facet.KeepRules {} ∅ datedDocument.facets := by
    intro h
    have hflat := h.flat _ _ (List.mem_cons_of_mem _ List.mem_cons_self) (by decide)
    cases hflat
  obtain ⟨before, f, after, violation, _, _, _, _, hbuild, hrecording⟩ :=
    (admitted_iff_keepRules {} Memory.taxonomy {} [] datedDocument).2.1 hrules
  obtain ⟨hadmitted, _, hbuilds⟩ := admitted_iff_keepRules {} Memory.taxonomy {} [] datedByYear
  exact ⟨hrules, violation, hbuild, hrecording,
    hbuilds (hadmitted.1 ⟨_, rfl⟩) Memory.reportsNoRule⟩

end FacetIndex
