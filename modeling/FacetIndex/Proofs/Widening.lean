/-
  Proofs/Widening.lean --- switching something on for a dimension.

  WHAT THIS FILE IS FOR.  A dimension may come to allow several values, or paths of
  several components, or to be counted.  A document that was built before is then
  built, too, and the taxonomy creates the same categories; only the ordinal sets may
  get larger, by ancestors that are stored now and were not before.  It must have no
  associations on the dimension, since these are refused on some dimensions.

  HOW IT GOES.  The two runs are compared question by question.  `Memory.Parallel`
  relates computations that stay together: the second succeeds whenever the first
  does, and leaves the same taxonomy.  What holds of their results holds in every
  later taxonomy, so that it can be said of the one in the end.

  WHAT IS PROVED.

      Document.examine_widened          the document is admitted again
      Memory.parallel_categoryBlob      the sets of one field, side by side
      Memory.resolve_widened            and so all of a document
      Memory.Above.exists_ancestor      what is new are ordinals of ancestors, as
                                        long as all categories have their own
      Indexer.build_switched_on         two builds, under the settings before and
                                        after

  WHAT IS NOT SAID.  Nothing about switching something off: a document with two
  values is refused then.
-/
import FacetIndex.Proofs.Agreement
import FacetIndex.Proofs.Gathering

set_option autoImplicit false

namespace FacetIndex

/-! ## Wider settings -/

namespace Dimension

/-- The second settings name the same field and have everything on that is on in the first. -/
structure Settings.Wider (a b : Settings) : Prop where
  indexField : b.indexField = a.indexField
  hierarchical : a.hierarchical = true → b.hierarchical = true
  multiValued : a.multiValued = true → b.multiValued = true
  requireCount : a.requireCount = true → b.requireCount = true

/-- A change that switches something on. -/
def Change.SwitchesOn (c : Change) : Prop :=
  c = .hierarchical true ∨ c = .multiValued true ∨ c = .requireCount true

instance (c : Change) : Decidable c.SwitchesOn := inferInstanceAs (Decidable (_ ∨ _ ∨ _))

namespace Settings

variable {a b c : Settings}

theorem Wider.refl (a : Settings) : a.Wider a := ⟨rfl, id, id, id⟩

theorem Wider.trans (hab : a.Wider b) (hbc : b.Wider c) : a.Wider c where
  indexField := hbc.indexField.trans hab.indexField
  hierarchical h := hbc.hierarchical (hab.hierarchical h)
  multiValued h := hbc.multiValued (hab.multiValued h)
  requireCount h := hbc.requireCount (hab.requireCount h)

theorem wider_apply {c : Change} (h : c.SwitchesOn) (a : Settings) : a.Wider (c.apply a) := by
  rcases h with rfl | rfl | rfl
  · exact ⟨rfl, fun _ => rfl, id, id⟩
  · exact ⟨rfl, id, fun _ => rfl, id⟩
  · exact ⟨rfl, id, id, fun _ => rfl⟩

theorem Wider.storesAncestors (h : a.Wider b) (ha : a.storesAncestors = true) :
    b.storesAncestors = true := by
  simp only [Settings.storesAncestors, Bool.and_eq_true, Bool.or_eq_true] at ha ⊢
  exact ⟨h.multiValued ha.1, ha.2.imp h.hierarchical h.requireCount⟩

theorem kept_subset {α : Type} (s : Settings) (above : List α) : s.kept above ⊆ above := by
  unfold kept
  split
  · split
    · exact List.Subset.refl above
    · exact List.dropLast_subset above
  · exact List.nil_subset above

theorem Wider.kept_subset {α : Type} (h : a.Wider b) (above : List α) :
    a.kept above ⊆ b.kept above := by
  by_cases hstores : a.storesAncestors = true
  · rw [kept, kept, if_pos hstores, if_pos (h.storesAncestors hstores)]
    by_cases hcount : a.requireCount = true
    · rw [if_pos hcount, if_pos (h.requireCount hcount)]
      exact List.Subset.refl above
    · rw [if_neg hcount]
      split
      · exact List.dropLast_subset above
      · exact List.Subset.refl _
  · rw [kept, if_neg hstores]
    exact List.nil_subset _

end Settings

namespace Store

/-- The stores differ in one dimension at most, for which the second is wider. -/
structure Widened (dimension : String) (a b : Store) : Prop where
  wider : ∀ other, (a.get other).Wider (b.get other)
  elsewhere : ∀ other, other ≠ dimension → b.get other = a.get other

variable {dimension : String} {a b : Store}

/-- Switching things on widens a dimension. -/
theorem widened_changes (dimension : String) {changes : List Change}
    (h : ∀ c ∈ changes, c.SwitchesOn) (a : Store) :
    Widened dimension a (changes.foldl (fun store c => store.change dimension c) a) := by
  induction changes generalizing a with
  | nil => exact ⟨fun other => .refl _, fun other _ => rfl⟩
  | cons c changes ih =>
    obtain ⟨hc, hrest⟩ := List.forall_mem_cons.1 h
    have hwidened := ih hrest (a.change dimension c)
    constructor
    · intro other
      refine Settings.Wider.trans ?_ (hwidened.wider other)
      rw [get_change]
      split
      · exact Settings.wider_apply hc _
      · exact .refl _
    · intro other hne
      exact (hwidened.elsewhere other hne).trans (by rw [get_change, if_neg (Ne.symm hne)])

namespace Widened

variable (h : Widened dimension a b) (d : Document)
include h

theorem fieldOf_eq : b.fieldOf = a.fieldOf := funext fun l => (h.wider l.dimension).indexField

theorem routeCategories_eq : b.routeCategories d = a.routeCategories d := by
  rw [routeCategories, routeCategories, h.fieldOf_eq]

theorem routeMembers_eq : b.routeMembers d = a.routeMembers d :=
  Routing.byField_congr fun m _ => (h.wider m.1).indexField

theorem routeAssociations_eq : b.routeAssociations d = a.routeAssociations d := by
  rw [routeAssociations, routeAssociations, h.fieldOf_eq]

end Widened

end Store

end Dimension

/-! ## Admission -/

namespace Admission

/-- The second knows the same kinds, and of no more dimensions that they have their value. -/
structure Laxer (a b : Admission) : Prop where
  seen : b.seen ⊆ a.seen
  kinds : b.kinds = a.kinds

variable {a a' b : Admission} {dimension : String} {store store' : Dimension.Store}
  {tracked : KindTable}

theorem Laxer.see {settings settings' : Dimension.Settings} (h : Laxer a b)
    (hwider : settings.Wider settings') (hsee : a.see settings dimension = .ok a') :
    ∃ b', b.see settings' dimension = .ok b' ∧ Laxer a' b' := by
  unfold Admission.see at hsee ⊢
  by_cases hmany' : settings'.multiValued = true
  · -- The second is not asked to note anything, whatever the first notes.
    refine ⟨b, if_pos hmany', ?_⟩
    split at hsee
    · cases hsee
      exact h
    · split at hsee
      · cases hsee
      · cases hsee
        exact ⟨fun _ hx => List.mem_cons_of_mem _ (h.seen hx), h.kinds⟩
  · have hmany : ¬ settings.multiValued = true := fun hm => hmany' (hwider.multiValued hm)
    rw [if_neg hmany] at hsee
    rw [if_neg hmany']
    split at hsee
    · cases hsee
    · rename_i hfresh
      cases hsee
      exact ⟨_, if_neg fun hmem => hfresh (h.seen hmem), List.cons_subset_cons _ h.seen, h.kinds⟩

theorem Laxer.attach {field : String} {kind : Association.Kind} (h : Laxer a b)
    (hattach : a.attach tracked field kind = .ok a') :
    ∃ b', b.attach tracked field kind = .ok b' ∧ Laxer a' b' := by
  unfold Admission.attach at hattach ⊢
  rw [h.kinds]
  split at hattach
  · cases hattach
    exact ⟨_, rfl, h.seen, rfl⟩
  · split at hattach
    · cases hattach
      rename_i hkind
      exact ⟨_, if_pos hkind, h.seen, rfl⟩
    · cases hattach

/-- A facet that passes still passes when its dimension is widened, unless it is an association. -/
theorem Laxer.examine {f : Facet} (h : Laxer a b)
    (hwidened : Dimension.Store.Widened dimension store store')
    (hfree : ∀ label value path_ne, f = .association label value path_ne →
      label.dimension ≠ dimension)
    (hexamine : a.examine store tracked f = .ok a') :
    ∃ b', b.examine store' tracked f = .ok b' ∧ Laxer a' b' := by
  cases f with
  | category label path_ne =>
    have hwider := hwidened.wider label.dimension
    simp only [Admission.examine] at hexamine ⊢
    split at hexamine
    · cases hexamine
    · rename_i seen hsee
      obtain ⟨b', hsee', hlaxer⟩ := h.see hwider hsee
      split at hexamine
      · cases hexamine
      · rename_i hshort
        cases hexamine
        refine ⟨b', ?_, hlaxer⟩
        rw [hsee']
        refine if_neg fun hlong => hshort ?_
        simp only [Bool.and_eq_true, Bool.not_eq_true', decide_eq_true_eq] at hlong ⊢
        exact ⟨hlong.1, Bool.eq_false_iff.2 fun hflag =>
          Bool.eq_false_iff.1 hlong.2 (hwider.hierarchical hflag)⟩
  | member other value dimension_ne value_ne => exact h.see (hwidened.wider other) hexamine
  | association label value path_ne =>
    have hsame := hwidened.elsewhere label.dimension (hfree label value path_ne rfl)
    simp only [Admission.examine, hsame] at hexamine ⊢
    split at hexamine
    · cases hexamine
    · split at hexamine
      · cases hexamine
      · rename_i hflat hplain
        obtain ⟨b', hattach, hlaxer⟩ := h.attach hexamine
        exact ⟨b', by rw [if_neg hflat, if_neg hplain, hattach], hlaxer⟩

theorem Laxer.examineAll (hwidened : Dimension.Store.Widened dimension store store')
    {fs : List Facet} (hfree : ∀ f ∈ fs, ∀ label value path_ne,
      f = .association label value path_ne → label.dimension ≠ dimension)
    (h : Laxer a b) (hexamine : a.examineAll store tracked fs = .ok a') :
    ∃ b', b.examineAll store' tracked fs = .ok b' ∧ Laxer a' b' := by
  induction fs generalizing a b with
  | nil =>
    cases hexamine
    exact ⟨b, rfl, h⟩
  | cons f fs ih =>
    obtain ⟨hf, hfs⟩ := List.forall_mem_cons.1 hfree
    rw [Admission.examineAll] at hexamine ⊢
    split at hexamine
    · cases hexamine
    · rename_i next hnext
      obtain ⟨b₁, hb₁, hlaxer⟩ := h.examine hwidened hf hnext
      rw [hb₁]
      exact ih hfs hlaxer hexamine

end Admission

/-- An admitted document without associations on a dimension is admitted when it is widened, and its
kinds are the same. -/
theorem Document.examine_widened {d : Document} {dimension : String}
    {store store' : Dimension.Store} {tracked kinds : KindTable}
    (hwidened : Dimension.Store.Widened dimension store store')
    (hfree : ∀ a ∈ d.associations, a.1.dimension ≠ dimension)
    (hexamine : d.examine store tracked = .ok kinds) : d.examine store' tracked = .ok kinds := by
  have hfree' : ∀ f ∈ d.facets, ∀ label value path_ne,
      f = .association label value path_ne → label.dimension ≠ dimension := by
    rintro _ hf label value path_ne rfl
    exact hfree (label, value) (List.mem_filterMap.2 ⟨_, hf, rfl⟩)
  unfold examine at hexamine ⊢
  split at hexamine
  · cases hexamine
  · rename_i a ha
    obtain ⟨b, hb, hlaxer⟩ :=
      Admission.Laxer.examineAll hwidened hfree' ⟨List.Subset.refl _, rfl⟩ ha
    cases hexamine
    rw [hb]
    exact congrArg Except.ok hlaxer.kinds

/-! ## Ancestors -/

namespace Memory

/-- The ordinal is met on the way from a category to the root, behind that of the category. -/
structure Above (m : Memory) (l : Label) (p : Ordinal) : Prop where
  has : m.Has l
  pos : 0 < p
  climbs : ∃ k, m.parentOf^[k + 1] (m.ordinalOf l) = p

/-- What stands for a category, besides its own ordinal, is met on the way from there. -/
theorem above_of_mem_climb {m : Memory} {l : Label} (hl : m.Has l) {p : Ordinal}
    (hp : p ∈ m.climb (m.ordinalOf l)) : m.Above l p := by
  obtain ⟨hpos, hclimb⟩ := exists_iterate_of_mem_climb hp
  exact ⟨hl, hpos, hclimb⟩

/-- Later the same is met on the way. -/
theorem Above.of_extends {m m' : Memory} {l : Label} {p : Ordinal} (h : m.Above l p)
    (hle : m.Extends m') : m'.Above l p where
  has := h.has.of_extends hle
  pos := h.pos
  climbs := by
    have hkept : ∀ (k : Nat) {o : Ordinal}, m.Known o → m'.parentOf^[k] o = m.parentOf^[k] o := by
      intro k
      induction k with
      | zero => exact fun _ => rfl
      | succ k ih =>
        intro o ho
        rw [Function.iterate_succ_apply, Function.iterate_succ_apply, hle.parentOf_eq ho]
        exact ih (m.known_parentOf o)
    obtain ⟨k, hk⟩ := h.climbs
    obtain ⟨i, hi⟩ := h.has
    refine ⟨k, ?_⟩
    rw [hle.ordinalOf_eq h.has, hkept _ (ordinalOf_of_getElem? hi ▸ known_ordinalAt hi), hk]

theorem iterate_parentOf_nonpos (m : Memory) {o : Ordinal} (ho : o ≤ 0) (k : Nat) :
    m.parentOf^[k] o ≤ 0 := by
  induction k generalizing o with
  | zero => exact ho
  | succ k ih =>
    rw [Function.iterate_succ_apply, parentOf_of_label?_eq_none (if_neg (Int32.not_lt.2 ho))]
    exact ih (by decide)

/-- As long as all categories have ordinals of their own, the ordinals above a category are those
of its ancestors. -/
theorem Above.exists_ancestor {m : Memory} {l : Label} {p : Ordinal} (h : m.Above l p)
    (hm : m.Fits) :
    ∃ len a, len < l.length ∧ l.ancestor? len = some a ∧ m.ordinal? a = some p := by
  obtain ⟨k, hk⟩ := h.climbs
  obtain ⟨hroot, hclimb⟩ := hm.numbering.climb l _ (ordinal?_eq_some_iff.2 ⟨h.has, rfl⟩)
  -- From the root on, what is met is not positive.
  have hlength : k + 1 < l.length := by
    by_contra hlong
    have hnonpos := m.iterate_parentOf_nonpos (Int32.le_refl Ordinal.root) (k + 1 - l.length)
    rw [← hroot, ← Function.iterate_add_apply, Nat.sub_add_cancel (Nat.not_lt.1 hlong), hk]
      at hnonpos
    exact Int32.not_lt.2 hnonpos h.pos
  obtain ⟨_, a, ha, hordinal⟩ := hclimb (k + 1) hlength
  exact ⟨_, a, by omega, ha, hk ▸ hordinal⟩

/-! ## Two runs side by side -/

/-- The second list has everything that is in the first, and any further ordinal is of the kind. -/
structure Enlarges (Extra : Ordinal → Prop) (os os' : List Ordinal) : Prop where
  subset : os ⊆ os'
  extra : ∀ p ∈ os', p ∉ os → Extra p

namespace Enlarges

variable {Extra Extra' : Ordinal → Prop}

theorem mono {os os' : List Ordinal} (h : Enlarges Extra os os')
    (hle : ∀ p, Extra p → Extra' p) : Enlarges Extra' os os' where
  subset := h.subset
  extra p hp hnew := hle p (h.extra p hp hnew)

theorem flatten {oss oss' : List (List Ordinal)} (h : List.Forall₂ (Enlarges Extra) oss oss') :
    Enlarges Extra oss.flatten oss'.flatten := by
  induction h with
  | nil => exact ⟨List.Subset.refl _, fun p hp => absurd hp List.not_mem_nil⟩
  | cons hone _ ih =>
    rw [List.flatten_cons, List.flatten_cons]
    refine ⟨List.append_subset.2 ⟨?_, ?_⟩, fun p hp hnew => ?_⟩
    · exact List.subset_append_of_subset_left _ hone.subset
    · exact List.subset_append_of_subset_right _ ih.subset
    · rw [List.mem_append, not_or] at hnew
      rcases List.mem_append.1 hp with hp | hp
      · exact hone.extra p hp hnew.1
      · exact ih.extra p hp hnew.2

/-- If the first can be encoded and nothing that is added is negative, then both are read back from
their blobs. -/
theorem exists_encode {os os' : List Ordinal} {blob : Bytes} (h : Enlarges (0 < ·) os os')
    (hencode : OrdinalSet.encode os = .ok blob) :
    ∃ blob' read read', OrdinalSet.encode os' = .ok blob' ∧
      OrdinalSet.decode blob = .ok read ∧ OrdinalSet.decode blob' = .ok read' ∧
      ∀ Extra, Enlarges Extra os os' → Enlarges Extra read read' := by
  have hnonneg := OrdinalSet.nonneg_of_encode hencode
  have hnonneg' : ∀ o ∈ os', 0 ≤ o := by
    intro o ho
    by_cases hold : o ∈ os
    · exact hnonneg o hold
    · exact Int32.le_of_lt (h.extra o ho hold)
  rw [OrdinalSet.encode_eq_blob hnonneg] at hencode
  cases hencode
  refine ⟨_, _, _, OrdinalSet.encode_eq_blob hnonneg', OrdinalSet.decode_blob hnonneg,
    OrdinalSet.decode_blob hnonneg', fun Extra henlarges => ⟨fun o ho => ?_, fun o ho hnew => ?_⟩⟩
  · exact OrdinalSet.mem_distinct.2 (henlarges.subset (OrdinalSet.mem_distinct.1 ho))
  · exact henlarges.extra o (OrdinalSet.mem_distinct.1 ho) fun hold =>
      hnew (OrdinalSet.mem_distinct.2 hold)

end Enlarges

/-- Whenever the first computation succeeds, so does the second, and leaves the same taxonomy.  The
results are related in every later taxonomy. -/
def Parallel {α : Type} (c c' : Ask Memory α) (Related : Memory → α → α → Prop) : Prop :=
  ∀ {m m' : Memory} {x : α}, c.from m = (.ok x, m') →
    m.Extends m' ∧ ∃ x', c'.from m = (.ok x', m') ∧ ∀ later, m'.Extends later → Related later x x'

theorem Parallel.mapM {α β : Type} {f f' : α → Ask Memory β} {Related : Memory → β → β → Prop}
    {xs : List α} (h : ∀ x ∈ xs, Parallel (f x) (f' x) Related) :
    Parallel (xs.mapM f) (xs.mapM f') fun later => List.Forall₂ (Related later) := by
  induction xs with
  | nil =>
    intro m m' ys hrun
    cases hrun
    exact ⟨Extends.refl m, [], rfl, fun _ _ => .nil⟩
  | cons x xs ih =>
    obtain ⟨hx, hxs⟩ := List.forall_mem_cons.1 h
    intro m m' ys hrun
    rw [List.mapM_cons] at hrun ⊢
    obtain ⟨y, m₁, hy, hrest⟩ := Ask.from_bind_eq_ok_iff.1 hrun
    obtain ⟨ys, m₂, hys, hpure⟩ := Ask.from_bind_eq_ok_iff.1 hrest
    cases hpure
    obtain ⟨hle, y', hy', hrelated⟩ := hx hy
    obtain ⟨hle', ys', hys', hall⟩ := ih hxs hys
    refine ⟨hle.trans hle', y' :: ys', ?_, fun later hlater => ?_⟩
    · rw [Ask.from_bind_of_ok hy', Ask.from_bind_of_ok hys']
      rfl
    · exact .cons (hrelated later (hle'.trans hlater)) (hall later hlater)

/-- What stands for a category under wider settings. -/
theorem parallel_ordinalsOf {a b : Dimension.Settings} (h : a.Wider b) (l : Label) :
    Parallel (taxonomy.ordinalsOf a l) (taxonomy.ordinalsOf b l) fun later =>
      Enlarges (later.Above l) := by
  intro m m' os hrun
  cases (m.from_ordinalsOf a l).symm.trans hrun
  refine ⟨m.extends_add l, _, m.from_ordinalsOf b l, fun later hlater => ⟨?_, fun p hp hnew => ?_⟩⟩
  · exact List.cons_subset_cons _ (h.kept_subset _)
  · have hkept : p ∈ b.kept ((m.add l).climb ((m.add l).ordinalOf l)) :=
      (List.mem_cons.1 hp).resolve_left fun heq => hnew (heq ▸ List.mem_cons_self)
    exact (above_of_mem_climb (m.has_add l) (b.kept_subset _ hkept)).of_extends hlater

/-- The blobs of the categories of a field: what is new in the second is above one of those that are
on the widened dimension. -/
theorem parallel_categoryBlob {dimension : String} {store store' : Dimension.Store}
    (h : Dimension.Store.Widened dimension store store') (labels : List Label) :
    Parallel (taxonomy.categoryBlob store labels) (taxonomy.categoryBlob store' labels)
      fun later blob blob' => ∃ os os', OrdinalSet.decode blob = .ok os ∧
        OrdinalSet.decode blob' = .ok os' ∧
        Enlarges (fun p => ∃ l ∈ labels, l.dimension = dimension ∧ later.Above l p) os os' := by
  have hlabels : ∀ l ∈ labels, Parallel
      (taxonomy.ordinalsOf (store.get l.dimension) l)
      (taxonomy.ordinalsOf (store'.get l.dimension) l) fun later =>
        Enlarges fun p => ∃ l ∈ labels, l.dimension = dimension ∧ later.Above l p := by
    intro l hl m m' os hrun
    by_cases hdimension : l.dimension = dimension
    · obtain ⟨hle, os', hrun', hlater⟩ := parallel_ordinalsOf (h.wider l.dimension) l hrun
      exact ⟨hle, os', hrun', fun later hle' => (hlater later hle').mono fun p hp =>
        ⟨l, hl, hdimension, hp⟩⟩
    · -- The settings of any other dimension are the same, and so is the run.
      rw [h.elsewhere l.dimension hdimension]
      obtain ⟨hle, _⟩ := parallel_ordinalsOf (.refl _) l hrun
      exact ⟨hle, os, hrun, fun later _ => ⟨List.Subset.refl os, fun p hp hnew => absurd hp hnew⟩⟩
  intro m m' blob hrun
  obtain ⟨oss, m₁, hoss, hencode⟩ := Ask.from_bind_eq_ok_iff.1 hrun
  obtain ⟨hle, oss', hoss', hlater⟩ := Parallel.mapM hlabels hoss
  split at hencode
  · rename_i encoded hencoded
    cases hencode
    have hpositive : Enlarges (0 < ·) oss.flatten oss'.flatten :=
      (Enlarges.flatten (hlater m' (.refl m'))).mono fun p ⟨_, _, _, hp⟩ => hp.pos
    obtain ⟨blob', read, read', hencoded', hread, hread', hkept⟩ :=
      hpositive.exists_encode hencoded
    refine ⟨hle, blob', ?_, fun later hle' => ⟨read, read', hread, hread', ?_⟩⟩
    · rw [Taxonomy.categoryBlob, Ask.from_bind_of_ok hoss', hencoded']
      rfl
    · exact hkept _ (Enlarges.flatten (hlater later hle'))
  · cases hencode

/-! ## Documents -/

/-- The second value is one of the same field, and holds a larger set: what is new is above one of
the categories that go to the field and are on the dimension. -/
def Larger (m : Memory) (store : Dimension.Store) (d : Document) (dimension : String)
    (f f' : CountingField) : Prop :=
  ∃ blob blob' os os', f.value = .binary blob ∧ f' = ⟨f.name, .binary blob'⟩ ∧
    OrdinalSet.decode blob = .ok os ∧ OrdinalSet.decode blob' = .ok os' ∧
    Enlarges (fun p => ∃ l ∈ d.categories, l.dimension = dimension ∧ store.fieldOf l = f.name ∧
      m.Above l p) os os'

section Widened

variable {dimension : String} {store store' : Dimension.Store} {d : Document}
  (h : Dimension.Store.Widened dimension store store')
include h

/-- The sets of one field. -/
theorem parallel_field {group : String × List Label} (hgroup : group ∈ store.routeCategories d) :
    Parallel
      (do
        let blob ← taxonomy.categoryBlob store group.2
        return CountingField.mk group.1 (.binary blob))
      (do
        let blob ← taxonomy.categoryBlob store' group.2
        return CountingField.mk group.1 (.binary blob))
      fun later => later.Larger store d dimension := by
  intro m m' f hrun
  obtain ⟨blob, m₁, hblob, hpure⟩ := Ask.from_bind_eq_ok_iff.1 hrun
  cases hpure
  obtain ⟨hle, blob', hblob', hlater⟩ := parallel_categoryBlob h group.2 hblob
  refine ⟨hle, ⟨group.1, .binary blob'⟩, ?_, fun later hle' => ?_⟩
  · rw [Ask.from_bind_of_ok hblob']
    rfl
  · obtain ⟨os, os', hread, hread', henlarges⟩ := hlater later hle'
    refine ⟨blob, blob', os, os', rfl, rfl, hread, hread', henlarges.mono ?_⟩
    rintro p ⟨l, hl, hdimension, hp⟩
    rw [(Routing.mem_byField.1 hgroup).2, List.mem_filter, decide_eq_true_eq] at hl
    exact ⟨l, hl.1, hdimension, hl.2, hp⟩

/-- A document that is resolved is resolved under the widened settings, too, and only the sets of
its categories may be larger. -/
theorem resolve_widened {m m' : Memory} {added : Addition}
    (hresolve : (taxonomy.resolve store d).from m = (.ok added, m')) :
    ∃ sets sets' records,
      (taxonomy.resolve store' d).from m = (.ok (store.addition d sets' records), m') ∧
      added = store.addition d sets records ∧
      AreBlobs (fun _ => OrdinalSet.IsBlob) (store.routeCategories d) sets ∧
      AreBlobs Association.IsBlob (store.routeAssociations d) records ∧
      List.Forall₂ (m'.Larger store d dimension) sets sets' := by
  obtain ⟨sets, m₁, records, hsets, hrecords, hadded⟩ :=
    Taxonomy.from_resolve_eq_ok_iff.1 hresolve
  obtain ⟨hle, sets', hsets', hlater⟩ :=
    Parallel.mapM (fun group hgroup => parallel_field h hgroup) hsets
  have hgrown : m₁.Extends m' := extends_of_associationBlobs hrecords
  refine ⟨sets, sets', records, ?_, hadded,
    Ask.areBlobs_of_from_blobs Taxonomy.isBlob_of_categoryBlob hsets,
    Ask.areBlobs_of_from_blobs Taxonomy.isBlob_of_associationBlob hrecords, hlater m' hgrown⟩
  refine Taxonomy.from_resolve_eq_ok_iff.2 ⟨sets', m₁, records, ?_, ?_, ?_⟩
  · rw [h.routeCategories_eq]
    exact hsets'
  · rw [h.routeAssociations_eq]
    exact hrecords
  · simp only [Dimension.Store.addition, Dimension.Store.terms, Dimension.Store.memberFields,
      h.routeCategories_eq, h.routeMembers_eq]

end Widened

end Memory

/-- What becomes of a built document that has no associations on a dimension when several values,
longer paths or a count are switched on for the dimension, starting from the same taxonomy and the
same kinds.  The document is built, the taxonomy and the kinds end up the same, and so are the
terms, the values of members and the blobs of associations.  In each field the set of ordinals has
at least the same elements.  Any further one is above a category of the dimension, and is the
ordinal of one of its ancestors as long as all categories have ordinals of their own. -/
theorem Indexer.build_switched_on {ix ix₁ : Indexer} {m m₁ : Memory} {d : Document} {b : Built}
    {dimension : String} {changes : List Dimension.Change}
    (hchanges : ∀ c ∈ changes, c.SwitchesOn)
    (hfree : ∀ a ∈ d.associations, a.1.dimension ≠ dimension)
    (hbuild : ix.build Memory.taxonomy m d = (.ok b, ix₁, m₁)) :
    let store := changes.foldl (fun store c => store.change dimension c) ix.settings
    (∃ b' sets sets' records,
      Indexer.build ⟨store, ix.kinds⟩ Memory.taxonomy m d = (.ok b', ⟨store, ix₁.kinds⟩, m₁) ∧
      b'.indexed = b.indexed ∧ b'.added.terms = b.added.terms ∧
      b.added.counting = sets ++ ix.settings.memberFields d ++ records ∧
      b'.added.counting = sets' ++ ix.settings.memberFields d ++ records ∧
      AreBlobs (fun _ => OrdinalSet.IsBlob) (ix.settings.routeCategories d) sets ∧
      AreBlobs Association.IsBlob (ix.settings.routeAssociations d) records ∧
      List.Forall₂ (m₁.Larger ix.settings d dimension) sets sets') ∧
    (m₁.size ≤ 2 ^ 31 → ∀ l p, m₁.Above l p →
      ∃ len a, len < l.length ∧ l.ancestor? len = some a ∧ m₁.ordinal? a = some p) := by
  intro store
  have hwidened := Dimension.Store.widened_changes dimension hchanges ix.settings
  obtain ⟨kinds, memo, hexamine, hmemoised, hsource, rfl⟩ := build_eq_ok hbuild
  have hresolve := Memory.steady.from_resolve_of_memoised hmemoised
  obtain ⟨sets, sets', records, hresolve', hadded, hsets, hrecords, hlarger⟩ :=
    Memory.resolve_widened hwidened hresolve
  obtain ⟨memo', hmemoised'⟩ := Memory.steady.from_resolve_memoised store d m
  rw [hresolve'] at hmemoised'
  have hbuild' : Indexer.build ⟨store, ix.kinds⟩ Memory.taxonomy m d = _ :=
    build_of_resolve_ok (Document.examine_widened hwidened hfree hexamine) hmemoised'
  refine ⟨⟨_, sets, sets', records, hbuild', ?_, ?_, ?_, rfl, hsets, hrecords, hlarger⟩, ?_⟩
  · rw [Built.indexed, Built.indexed, hadded, hsource]
    rfl
  · rw [hadded]
    rfl
  · rw [hadded]
    rfl
  · exact fun hsize l p hp => hp.exists_ancestor (Memory.fits_iff_size_le.2 hsize)

/-- Soils form a hierarchy, and a document has one of them. -/
def soilStore : Dimension.Store := Dimension.Store.change {} "Soil" (.hierarchical true)

/-- A document about red clay, with a harvest. -/
def soilDocument : Document where
  indexable := [
    .facet (.category ⟨"Soil", ["Clay", "Red"], by decide, by decide⟩ (by decide)),
    .facet (.association ⟨"Harvest", ["tons"], by decide, by decide⟩ (.int 7) (by decide))]

/-- With several soils and a count the set has the ordinals of clay and of all soils, too; the blob
of the harvest stays. -/
theorem Indexer.build_switched_on_soil :
    ∃ b b' ix₁ ix₁' m₁,
      Indexer.build ⟨soilStore, ∅⟩ Memory.taxonomy {} soilDocument = (.ok b, ix₁, m₁) ∧
      Indexer.build ⟨(soilStore.change "Soil" (.multiValued true)).change
        "Soil" (.requireCount true), ∅⟩ Memory.taxonomy {} soilDocument = (.ok b', ix₁', m₁) ∧
      b'.indexed = b.indexed ∧
      b.added.counting.map (·.value) = [.binary [3], .binary [0, 0, 0, 5, 0, 0, 0, 7]] ∧
      b'.added.counting.map (·.value) =
        [.binary [1, 1, 1], .binary [0, 0, 0, 5, 0, 0, 0, 7]] := by
  let store := (soilStore.change "Soil" (.multiValued true)).change "Soil" (.requireCount true)
  let m : Memory := Memory.addAll {} (soilStore.asked soilDocument)
  have hfits : m.Fits := by decide +kernel
  obtain ⟨_, hbuild⟩ := Indexer.exists_build_memory ⟨soilStore, ∅⟩ {} soilDocument ⟨_, rfl⟩ hfits
  have hchanges : ∀ c ∈ [.multiValued true, .requireCount true], Dimension.Change.SwitchesOn c := by
    decide
  have hfree : ∀ a ∈ soilDocument.associations, a.1.dimension ≠ "Soil" := by decide
  obtain ⟨⟨b', _, _, _, hbuild', hindexed, _⟩, _⟩ := build_switched_on hchanges hfree hbuild
  have hrecords : m.associationBlob soilDocument.associations = [0, 0, 0, 5, 0, 0, 0, 7] := by
    decide +kernel
  refine ⟨_, b', _, _, _, hbuild, hbuild', hindexed, ?_, ?_⟩
  · have hordinals : (soilStore.counted soilDocument.categories).map m.ordinalOf = [3] := by
      decide +kernel
    have hset : OrdinalSet.blob [3] = [3] := by cbv
    change [DocValues.binary (OrdinalSet.blob
      ((soilStore.counted soilDocument.categories).map m.ordinalOf)),
      .binary (m.associationBlob soilDocument.associations)] = _
    rw [hordinals, hset, hrecords]
  · have hordinals : (store.counted soilDocument.categories).map m.ordinalOf = [3, 2, 1] := by
      decide +kernel
    have hset : OrdinalSet.blob [3, 2, 1] = [1, 1, 1] := by cbv
    rw [(Indexer.added_of_build_memory hbuild' hfits).2]
    change [DocValues.binary (OrdinalSet.blob
      ((store.counted soilDocument.categories).map m.ordinalOf)),
      .binary (m.associationBlob soilDocument.associations)] = _
    rw [hordinals, hset, hrecords]

end FacetIndex
