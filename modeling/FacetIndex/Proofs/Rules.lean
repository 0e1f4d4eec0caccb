/-
  Proofs/Rules.lean --- the rules of a document.

  WHAT THIS FILE IS FOR.  A document may have one value on a dimension of single
  values, long paths on hierarchical dimensions only, no associations on dimensions
  that are hierarchical or counted, and associations of one kind in an index field.
  These four rules are said twice: of all facets at once, with no regard to their
  order (`Facet.KeepRules`), and of one facet after those before it
  (`Facet.Breaks`).  The second is what a pass over the facets can find out.

  WHAT IS PROVED.

      Facet.Breaks.unique         after the same facets, a facet is reported for one
                                  violation at most
      Facet.keepRules_concat      one more facet keeps the rules exactly if it
                                  breaks none after those before it
      Facet.keepRules_iff_clean   facets keep the rules exactly if none of them
                                  breaks one after those before it

  WHAT IS NOT SAID.  Nothing is executed here.  That the indexer follows the rules
  is the matter of `Proofs/Admission.lean`.
-/
import FacetIndex.Admission
import FacetIndex.Routing

set_option autoImplicit false

namespace FacetIndex

/-- The dimension that a facet gives a value in.  An association gives none. -/
def Facet.valued? : Facet → Option String
  | .category label _ => some label.dimension
  | .member dimension .. => some dimension
  | .association .. => none

/-- The kind of the association that a facet sends to an index field. -/
def Facet.kindAt? (store : Dimension.Store) (field : String) : Facet → Option Association.Kind
  | .category .. | .member .. => none
  | .association label value _ => if store.fieldOf label = field then some value.kind else none

namespace Dimension.Store

/-- The kinds of the associations that go to an index field, in the order of the facets. -/
def kindsAt (store : Store) (field : String) (fs : List Facet) : List Association.Kind :=
  fs.filterMap (Facet.kindAt? store field)

/-- The associations of an index field are of one kind, which is the tracked one if there is. -/
def Uniform (store : Store) (tracked : KindTable) (fs : List Facet) (field : String) : Prop :=
  ∀ kind ∈ store.kindsAt field fs,
    (∀ other ∈ store.kindsAt field fs, other = kind) ∧
      ∀ current, tracked[field]? = some current → current = kind

/-- A dimension may have one value, and the facets give it one. -/
def Taken (store : Store) (fs : List Facet) (dimension : String) : Prop :=
  (store.get dimension).multiValued = false ∧ ∃ f ∈ fs, f.valued? = some dimension

theorem kindsAt_concat (store : Store) (field : String) (fs : List Facet) (f : Facet) :
    store.kindsAt field (fs ++ [f]) =
      store.kindsAt field fs ++ (f.kindAt? store field).toList := by
  rw [kindsAt, List.filterMap_append, ← kindsAt]
  cases h : f.kindAt? store field with
  | none => simp [h]
  | some kind => simp [h]

theorem taken_concat {store : Store} {fs : List Facet} {f : Facet} {dimension : String} :
    store.Taken (fs ++ [f]) dimension ↔
      store.Taken fs dimension ∨
        (store.get dimension).multiValued = false ∧ f.valued? = some dimension := by
  unfold Taken
  simp only [List.mem_append, List.mem_singleton, or_and_right, exists_or, exists_eq_left,
    ← and_or_left]

end Dimension.Store

namespace Facet

/-- The facets keep the rules; `tracked` are the kinds of the documents before. -/
structure KeepRules (store : Dimension.Store) (tracked : KindTable) (fs : List Facet) : Prop where
  /-- A dimension of single values has at most one value. -/
  single : ∀ dimension, (store.get dimension).multiValued = false →
    fs.countP (·.valued? = some dimension) ≤ 1
  /-- A path of several components is on a hierarchical dimension. -/
  flat : ∀ label path_ne, category label path_ne ∈ fs → 1 < label.path.length →
    (store.get label.dimension).hierarchical = true
  /-- An association is on a dimension that is neither hierarchical nor counted. -/
  plain : ∀ label value path_ne, association label value path_ne ∈ fs →
    (store.get label.dimension).hierarchical = false ∧
      (store.get label.dimension).requireCount = false
  /-- The associations of an index field are of one kind. -/
  uniform : ∀ field, store.Uniform tracked fs field

/-- A facet breaks a rule after the facets before it.  Where it breaks two, the violation is the one
that is reported. -/
inductive Breaks (store : Dimension.Store) (tracked : KindTable) (before : List Facet) :
    Facet → Violation → Prop where
  | repeated {f : Facet} {dimension : String} (valued : f.valued? = some dimension)
      (taken : store.Taken before dimension) :
      Breaks store tracked before f (.repeatedDimension dimension)
  | deep {label : Label} {path_ne : label.path ≠ []} (fresh : ¬ store.Taken before label.dimension)
      (long : 1 < label.path.length) (flat : (store.get label.dimension).hierarchical = false) :
      Breaks store tracked before (.category label path_ne)
        (.flatDimension label.dimension label.path.length)
  | hierarchical {label : Label} {value : Association.Value} {path_ne : label.path ≠ []}
      (hierarchical : (store.get label.dimension).hierarchical = true) :
      Breaks store tracked before (.association label value path_ne)
        (.hierarchicalAssociation label.dimension)
  | counted {label : Label} {value : Association.Value} {path_ne : label.path ≠ []}
      (flat : (store.get label.dimension).hierarchical = false)
      (counted : (store.get label.dimension).requireCount = true) :
      Breaks store tracked before (.association label value path_ne)
        (.countedAssociation label.dimension)
  | mixed {label : Label} {value : Association.Value} {path_ne : label.path ≠ []}
      {current : Association.Kind} (flat : (store.get label.dimension).hierarchical = false)
      (uncounted : (store.get label.dimension).requireCount = false)
      (known : (store.kindsAt (store.fieldOf label) before).head?.or
        tracked[store.fieldOf label]? = some current)
      (differs : current ≠ value.kind) :
      Breaks store tracked before (.association label value path_ne)
        (.mixedKinds current value.kind (store.fieldOf label))

/-- After the same facets, a facet is reported for one violation only. -/
theorem Breaks.unique {store : Dimension.Store} {tracked : KindTable} {before : List Facet}
    {f : Facet} {v w : Violation} (hv : f.Breaks store tracked before v)
    (hw : f.Breaks store tracked before w) : v = w := by
  cases hv with
  | repeated valued taken =>
    cases hw with
    | repeated valued' =>
      rw [valued, Option.some.injEq] at valued'
      rw [valued']
    | deep fresh =>
      cases valued
      exact absurd taken fresh
    | _ => cases valued
  | deep fresh long flat =>
    cases hw with
    | repeated valued taken =>
      cases valued
      exact absurd taken fresh
    | deep => rfl
  | hierarchical hierarchical =>
    cases hw with
    | repeated valued => cases valued
    | hierarchical => rfl
    | counted flat => cases flat.symm.trans hierarchical
    | mixed flat => cases flat.symm.trans hierarchical
  | counted flat counted =>
    cases hw with
    | repeated valued => cases valued
    | hierarchical hierarchical => cases flat.symm.trans hierarchical
    | counted => rfl
    | mixed _ uncounted => cases uncounted.symm.trans counted
  | mixed flat uncounted known =>
    cases hw with
    | repeated valued => cases valued
    | hierarchical hierarchical => cases flat.symm.trans hierarchical
    | counted _ counted => cases uncounted.symm.trans counted
    | mixed _ _ known' =>
      rw [known, Option.some.injEq] at known'
      rw [known']

/-- No facet breaks a rule after those before it. -/
def Clean (store : Dimension.Store) (tracked : KindTable) (fs : List Facet) : Prop :=
  ∀ before f after violation, fs = before ++ f :: after →
    ¬ f.Breaks store tracked before violation

variable {store : Dimension.Store} {tracked : KindTable} {fs : List Facet} {f : Facet}

theorem kindAt?_eq_some_iff {field : String} {kind : Association.Kind} :
    f.kindAt? store field = some kind ↔
      ∃ label value path_ne, f = association label value path_ne ∧
        store.fieldOf label = field ∧ value.kind = kind := by
  cases f with
  | category label path_ne => simp [kindAt?]
  | member dimension value dimension_ne value_ne => simp [kindAt?]
  | association label value path_ne =>
    rw [kindAt?, Option.ite_none_right_eq_some]
    constructor
    · intro h
      obtain ⟨hfield, hkind⟩ := h
      cases hkind
      exact ⟨label, value, path_ne, rfl, hfield, rfl⟩
    · intro h
      obtain ⟨label', value', path_ne', heq, hfield, hkind⟩ := h
      cases heq
      exact ⟨hfield, congrArg some hkind⟩

/-! ## One facet more

Both senses of keeping the rules say the same of a facet that follows others. -/

theorem single_concat :
    (∀ dimension, (store.get dimension).multiValued = false →
        (fs ++ [f]).countP (·.valued? = some dimension) ≤ 1) ↔
      (∀ dimension, (store.get dimension).multiValued = false →
        fs.countP (·.valued? = some dimension) ≤ 1) ∧
      ∀ dimension, f.valued? = some dimension → ¬ store.Taken fs dimension := by
  rw [← forall_and]
  refine forall_congr' fun dimension => ?_
  have hcount : 0 < fs.countP (·.valued? = some dimension) ↔
      ∃ g ∈ fs, g.valued? = some dimension := by
    rw [List.countP_pos_iff]
    simp only [decide_eq_true_eq]
  unfold Dimension.Store.Taken
  rw [List.countP_append, List.countP_singleton, ← hcount]
  by_cases hvalued : f.valued? = some dimension
  · simp only [hvalued, decide_true, if_true, true_imp_iff]
    cases (store.get dimension).multiValued with
    | false =>
      simp only [true_imp_iff, true_and]
      omega
    | true => simp only [Bool.true_eq_false, false_imp_iff, false_and, not_false_eq_true, and_self]
  · simp only [hvalued, decide_false, Bool.false_eq_true, if_false, Nat.add_zero, false_imp_iff,
      and_true]

theorem uniform_of_concat {field : String} (h : store.Uniform tracked (fs ++ [f]) field) :
    store.Uniform tracked fs field := by
  intro kind hkind
  have hsub : ∀ k ∈ store.kindsAt field fs, k ∈ store.kindsAt field (fs ++ [f]) := by
    intro k hk
    rw [store.kindsAt_concat]
    exact List.mem_append_left _ hk
  obtain ⟨hsame, htracked⟩ := h kind (hsub kind hkind)
  exact ⟨fun other hother => hsame other (hsub other hother), htracked⟩

theorem uniform_concat {field : String} (hfs : store.Uniform tracked fs field) :
    store.Uniform tracked (fs ++ [f]) field ↔
      ∀ kind, f.kindAt? store field = some kind →
        ∀ current, (store.kindsAt field fs).head?.or tracked[field]? = some current →
          current = kind := by
  unfold Dimension.Store.Uniform
  rw [store.kindsAt_concat]
  cases hf : f.kindAt? store field with
  | none =>
    rw [Option.toList_none, List.append_nil]
    exact iff_of_true hfs fun kind h => nomatch h
  | some new =>
    cases hkinds : store.kindsAt field fs with
    | nil => simp
    | cons kind kinds =>
      -- All earlier kinds are the first one, and so is the tracked kind.
      obtain ⟨hsame, htracked⟩ := hfs kind (hkinds ▸ List.mem_cons_self)
      rw [hkinds] at hsame
      constructor
      · intro h kind' hkind' current hcurrent
        cases hkind'
        cases hcurrent
        exact (h new (List.mem_append_right _ List.mem_cons_self)).1 kind
          (List.mem_append_left _ List.mem_cons_self)
      · intro h
        have hnew : kind = new := h new rfl kind rfl
        have hall : ∀ other ∈ kind :: kinds ++ [new], other = kind := by
          intro other hother
          rcases List.mem_append.1 hother with hother | hother
          · exact hsame other hother
          · rw [List.mem_singleton.1 hother, hnew]
        intro other hother
        rw [hall other hother]
        exact ⟨hall, htracked⟩

/-- A facet keeps the rules together with those before it. -/
structure Follows (store : Dimension.Store) (tracked : KindTable) (fs : List Facet) (f : Facet) :
    Prop where
  fresh : ∀ dimension, f.valued? = some dimension → ¬ store.Taken fs dimension
  flat : ∀ label path_ne, f = category label path_ne → 1 < label.path.length →
    (store.get label.dimension).hierarchical = true
  plain : ∀ label value path_ne, f = association label value path_ne →
    (store.get label.dimension).hierarchical = false ∧
      (store.get label.dimension).requireCount = false
  agrees : ∀ field kind, f.kindAt? store field = some kind →
    ∀ current, (store.kindsAt field fs).head?.or tracked[field]? = some current → current = kind

theorem Follows.not_breaks (h : Follows store tracked fs f) (violation : Violation) :
    ¬ f.Breaks store tracked fs violation := by
  intro hbreaks
  cases hbreaks with
  | repeated valued taken => exact h.fresh _ valued taken
  | deep fresh long flat => cases flat.symm.trans (h.flat _ _ rfl long)
  | hierarchical hierarchical => cases hierarchical.symm.trans (h.plain _ _ _ rfl).1
  | counted flat counted => cases counted.symm.trans (h.plain _ _ _ rfl).2
  | mixed flat uncounted known differs =>
    exact differs (h.agrees _ _ (kindAt?_eq_some_iff.2 ⟨_, _, _, rfl, rfl, rfl⟩) _ known)

theorem follows_of_not_breaks (h : ∀ violation, ¬ f.Breaks store tracked fs violation) :
    Follows store tracked fs f := by
  have hplain : ∀ label value path_ne, f = association label value path_ne →
      (store.get label.dimension).hierarchical = false ∧
        (store.get label.dimension).requireCount = false := by
    rintro label value path_ne rfl
    have hflat : (store.get label.dimension).hierarchical = false :=
      Bool.eq_false_iff.2 fun hhierarchical => h _ (.hierarchical hhierarchical)
    exact ⟨hflat, Bool.eq_false_iff.2 fun hcounted => h _ (.counted hflat hcounted)⟩
  have hfresh : ∀ dimension, f.valued? = some dimension → ¬ store.Taken fs dimension :=
    fun dimension hvalued htaken => h _ (.repeated hvalued htaken)
  refine ⟨hfresh, ?_, hplain, ?_⟩
  · rintro label path_ne rfl hlong
    cases hflat : (store.get label.dimension).hierarchical with
    | true => rfl
    | false => exact absurd (.deep (hfresh _ rfl) hlong hflat) (h _)
  · intro field kind hkind current hcurrent
    obtain ⟨label, value, path_ne, rfl, rfl, rfl⟩ := kindAt?_eq_some_iff.1 hkind
    obtain ⟨hflat, huncounted⟩ := hplain label value path_ne rfl
    by_cases hsame : current = value.kind
    · exact hsame
    · exact absurd (.mixed hflat huncounted hcurrent hsame) (h _)

theorem keepRules_nil : KeepRules store tracked [] where
  single _ _ := Nat.zero_le 1
  flat _ _ h := absurd h List.not_mem_nil
  plain _ _ _ h := absurd h List.not_mem_nil
  uniform _ _ h := absurd h List.not_mem_nil

theorem KeepRules.concat (h : KeepRules store tracked fs) (hf : Follows store tracked fs f) :
    KeepRules store tracked (fs ++ [f]) := by
  refine ⟨single_concat.2 ⟨h.single, hf.fresh⟩, ?_, ?_,
    fun field => (uniform_concat (h.uniform field)).2 (hf.agrees field)⟩
  · intro label path_ne hlabel
    rcases List.mem_append.1 hlabel with hlabel | hlabel
    · exact h.flat label path_ne hlabel
    · exact hf.flat label path_ne (List.mem_singleton.1 hlabel).symm
  · intro label value path_ne hlabel
    rcases List.mem_append.1 hlabel with hlabel | hlabel
    · exact h.plain label value path_ne hlabel
    · exact hf.plain label value path_ne (List.mem_singleton.1 hlabel).symm

theorem KeepRules.of_concat (h : KeepRules store tracked (fs ++ [f])) :
    KeepRules store tracked fs ∧ Follows store tracked fs f := by
  have hmem : ∀ g ∈ fs, g ∈ fs ++ [f] := fun g hg => List.mem_append_left _ hg
  have hlast : f ∈ fs ++ [f] := List.mem_append_right _ List.mem_cons_self
  obtain ⟨hsingle, hfresh⟩ := single_concat.1 h.single
  have huniform : ∀ field, store.Uniform tracked fs field := fun field =>
    uniform_of_concat (h.uniform field)
  refine ⟨⟨hsingle, fun label path_ne hlabel => h.flat label path_ne (hmem _ hlabel),
    fun label value path_ne hlabel => h.plain label value path_ne (hmem _ hlabel), huniform⟩,
    hfresh, ?_, ?_, fun field => (uniform_concat (huniform field)).1 (h.uniform field)⟩
  · rintro label path_ne rfl
    exact h.flat label path_ne hlast
  · rintro label value path_ne rfl
    exact h.plain label value path_ne hlast

theorem keepRules_concat :
    KeepRules store tracked (fs ++ [f]) ↔
      KeepRules store tracked fs ∧ ∀ violation, ¬ f.Breaks store tracked fs violation := by
  constructor
  · intro h
    obtain ⟨hfs, hf⟩ := h.of_concat
    exact ⟨hfs, hf.not_breaks⟩
  · intro h
    exact h.1.concat (follows_of_not_breaks h.2)

theorem clean_nil (store : Dimension.Store) (tracked : KindTable) : Clean store tracked [] := by
  intro before f after violation h
  have hlength := congrArg List.length h
  rw [List.length_append, List.length_cons, List.length_nil] at hlength
  omega

theorem clean_concat :
    Clean store tracked (fs ++ [f]) ↔
      Clean store tracked fs ∧ ∀ violation, ¬ f.Breaks store tracked fs violation := by
  constructor
  · intro h
    refine ⟨fun before g after violation hfs => ?_, fun violation => h fs f [] violation rfl⟩
    refine h before g (after ++ [f]) violation ?_
    rw [hfs, List.append_assoc, List.cons_append]
  · intro h before g after violation hfs
    obtain ⟨hclean, hlast⟩ := h
    rcases List.eq_nil_or_concat after with rfl | ⟨after, last, rfl⟩
    · obtain ⟨rfl, heq⟩ := List.append_inj' hfs rfl
      cases heq
      exact hlast violation
    · rw [List.concat_eq_append, ← List.cons_append, ← List.append_assoc] at hfs
      obtain ⟨rfl, _⟩ := List.append_inj' hfs rfl
      exact hclean before g after violation rfl

theorem keepRules_append_iff_clean {before : List Facet}
    (h : KeepRules store tracked before ↔ Clean store tracked before) (fs : List Facet) :
    KeepRules store tracked (before ++ fs) ↔ Clean store tracked (before ++ fs) := by
  induction fs generalizing before with
  | nil =>
    rw [List.append_nil]
    exact h
  | cons f fs ih =>
    rw [List.append_cons]
    apply ih
    rw [keepRules_concat, clean_concat, h]

/-- The facets keep the rules if none breaks a rule after those before it. -/
theorem keepRules_iff_clean : KeepRules store tracked fs ↔ Clean store tracked fs :=
  keepRules_append_iff_clean (iff_of_true keepRules_nil (clean_nil store tracked)) fs

end Facet

end FacetIndex
