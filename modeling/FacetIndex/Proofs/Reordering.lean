/-
  Proofs/Reordering.lean --- the order of the facets does not matter.

  WHAT THIS FILE IS FOR.  Two documents with the same items in different orders are
  both refused or both built, over a taxonomy in memory.  The rules do not mention
  the order of the facets, every index field gets the same facets in both, and the
  same labels are asked for.  Only the ordinals that new categories get depend on
  the order.

  WHAT IS PROVED.

      Document.exists_examine_ok_of_perm    both are admitted or none is
      Dimension.Store.terms_perm            the same terms, in some order
      Indexer.sameSets_of_builds,
      Indexer.sameRecords_of_builds          blobs of the same field hold the same
                                            labels, and the same values with them
      Indexer.build_in_any_order            all of this for two builds, and the
                                            blobs have the same bytes if no category
                                            was new

  `Memory.SameSets` and `Memory.SameRecords` compare two blobs by the labels of
  their ordinals, each in its own taxonomy.

  WHAT IS NOT SAID.  Records keep the order of the document, so that those of two
  orders are permutations of each other and not the same bytes.
-/
import FacetIndex.Proofs.AssociationRecords
import FacetIndex.Proofs.Growth
import FacetIndex.Proofs.OrdinalWords
import FacetIndex.Proofs.Refusal

set_option autoImplicit false

namespace FacetIndex

/-! ## Groups -/

namespace Routing

variable {α β : Type} {xs ys : List α}

/-- Lists with the same members have the same names. -/
theorem names_congr {xs ys : List String} (h : ∀ name, name ∈ xs ↔ name ∈ ys) :
    names xs = names ys := by
  refine (pairwise_names xs).eq_of_mem_iff (pairwise_names ys) fun name => ?_
  rw [mem_names, mem_names, h]

/-- What is made of the groups is made of them in any order, if this holds of each group. -/
theorem flatMap_byField_perm (route : α → String) {f : String → List α → List β} (h : xs.Perm ys)
    (hf : ∀ name {as bs : List α}, as.Perm bs → (f name as).Perm (f name bs)) :
    ((byField route xs).flatMap fun group => f group.1 group.2).Perm
      ((byField route ys).flatMap fun group => f group.1 group.2) := by
  have hnames : names (xs.map route) = names (ys.map route) :=
    names_congr fun name => (h.map route).mem_iff
  unfold byField
  rw [List.flatMap_map, List.flatMap_map, hnames]
  exact List.Perm.flatMap_left _ fun name _ => hf name (h.filter _)

end Routing

/-! ## Documents in another order -/

namespace Document

variable {d d' : Document}

theorem facets_perm (h : d.indexable.Perm d'.indexable) : d.facets.Perm d'.facets :=
  h.filterMap _

theorem categories_perm (h : d.indexable.Perm d'.indexable) : d.categories.Perm d'.categories :=
  (facets_perm h).filterMap _

theorem members_perm (h : d.indexable.Perm d'.indexable) : d.members.Perm d'.members :=
  (facets_perm h).filterMap _

theorem associations_perm (h : d.indexable.Perm d'.indexable) :
    d.associations.Perm d'.associations :=
  (facets_perm h).filterMap _

end Document

namespace Dimension.Store

variable {d d' : Document}

/-- The added terms are the same, each as often. -/
theorem terms_perm (store : Store) (h : d.indexable.Perm d'.indexable) :
    (store.terms d).Perm (store.terms d') := by
  refine .append ?_ ?_
  · exact Routing.flatMap_byField_perm store.fieldOf (Document.categories_perm h)
      fun name _ _ hlabels => hlabels.flatMap_right _
  · exact Routing.flatMap_byField_perm _ (Document.members_perm h)
      fun name _ _ hmembers => hmembers.flatMap_right _

/-- The same labels are asked for. -/
theorem mem_asked_congr {store : Store} (h : d.indexable.Perm d'.indexable) (l : Label) :
    l ∈ store.asked d ↔ l ∈ store.asked d' := by
  rw [mem_asked, mem_asked, (Document.categories_perm h).mem_iff,
    ((Document.associations_perm h).map _).mem_iff]

end Dimension.Store

/-! ## Admission -/

/-- Of equal elements it does not matter which one is the first. -/
theorem head?_eq_of_perm {α : Type} {xs ys : List α} (h : xs.Perm ys)
    (hsame : ∀ x ∈ xs, ∀ y ∈ xs, y = x) : xs.head? = ys.head? := by
  cases xs with
  | nil => rw [h.nil_eq]
  | cons x xs =>
    cases ys with
    | nil => cases h.symm.nil_eq
    | cons y ys =>
      have hy : y = x := hsame x List.mem_cons_self y (h.mem_iff.2 List.mem_cons_self)
      rw [hy, List.head?_cons, List.head?_cons]

namespace Facet

variable {store : Dimension.Store} {tracked : KindTable} {fs fs' : List Facet}

/-- The rules are about facets in any order. -/
theorem KeepRules.of_perm (h : KeepRules store tracked fs) (hperm : fs.Perm fs') :
    KeepRules store tracked fs' where
  single dimension hsingle := by
    rw [← hperm.countP_eq]
    exact h.single dimension hsingle
  flat label path_ne hmem := h.flat label path_ne (hperm.mem_iff.2 hmem)
  plain label value path_ne hmem := h.plain label value path_ne (hperm.mem_iff.2 hmem)
  uniform field := by
    have hkinds : (store.kindsAt field fs).Perm (store.kindsAt field fs') := hperm.filterMap _
    intro kind hkind
    obtain ⟨hsame, htracked⟩ := h.uniform field kind (hkinds.mem_iff.2 hkind)
    exact ⟨fun other hother => hsame other (hkinds.mem_iff.2 hother), htracked⟩

/-- The first kind of an index field is the same in any order. -/
theorem KeepRules.head?_kindsAt_eq (h : KeepRules store tracked fs) (hperm : fs.Perm fs')
    (field : String) : (store.kindsAt field fs).head? = (store.kindsAt field fs').head? :=
  head?_eq_of_perm (hperm.filterMap _) fun kind hkind other hother =>
    (h.uniform field kind hkind).1 other hother

end Facet

namespace Document

variable {store : Dimension.Store} {tracked : KindTable} {d d' : Document}

theorem exists_examine_ok_of_keepRules (h : Facet.KeepRules store tracked d.facets) :
    ∃ kinds, d.examine store tracked = .ok kinds := by
  obtain ⟨violation, _, before, f, after, hfacets, _, hbreaks⟩ | ⟨kinds, hexamine, _⟩ :=
    examine_cases store tracked d
  · exact absurd h (not_keepRules_of_breaks hfacets hbreaks)
  · exact ⟨kinds, hexamine⟩

theorem exists_examine_ok_of_perm (hperm : d.indexable.Perm d'.indexable) {kinds : KindTable}
    (h : d.examine store tracked = .ok kinds) :
    ∃ kinds', d'.examine store tracked = .ok kinds' :=
  exists_examine_ok_of_keepRules ((keepRules_of_examine_ok h).1.of_perm (facets_perm hperm))

end Document

/-! ## What is read from the blobs -/

namespace Memory

/-- The blob is a set of ordinals, which stand for these labels, in this order. -/
def ReadsSet (m : Memory) (blob : Bytes) (labels : List Label) : Prop :=
  ∃ ordinals, OrdinalSet.decode blob = .ok ordinals ∧ ordinals.map m.label? = labels.map some

/-- The blob has records of a kind, and these are their labels and values, in this order. -/
def ReadsRecords (m : Memory) (blob : Bytes) (kind : Association.Kind)
    (values : List (Label × Association.Value)) : Prop :=
  ∃ rs, Association.Holds blob kind rs ∧
    rs.map (fun e => (m.label? e.1, e.2)) = values.map fun v => (some v.1, v.2)

/-- Two blobs are sets of the same labels, each read with its own taxonomy. -/
def SameSets (m m' : Memory) (blob blob' : Bytes) : Prop :=
  ∃ labels labels', m.ReadsSet blob labels ∧ m'.ReadsSet blob' labels' ∧ labels.Perm labels'

/-- Two blobs attach the same values to the same labels, each as often. -/
def SameRecords (m m' : Memory) (kind : Association.Kind) (blob blob' : Bytes) : Prop :=
  ∃ values values', m.ReadsRecords blob kind values ∧ m'.ReadsRecords blob' kind values' ∧
    values.Perm values'

variable {m : Memory} {store : Dimension.Store} {labels : List Label}

/-- From the blob of some categories the labels counted for them are read, each once. -/
theorem exists_readsSet_categoryBlob (hm : m.Fits) (h : ∀ l ∈ labels, m.Has l) :
    ∃ read, m.ReadsSet (m.categoryBlob store labels) read ∧ read.Nodup ∧
      ∀ l, l ∈ read ↔ l ∈ store.counted labels := by
  have hcounted : ∀ l ∈ store.counted labels, m.Has l := fun l hl => has_of_mem_store_counted h hl
  obtain ⟨read, hread, hnodup, hmem⟩ := exists_labels_distinct hm hcounted
  exact ⟨read, ⟨_, OrdinalSet.decode_blob (ordinals_nonneg hm hcounted), hread⟩, hnodup, hmem⟩

/-- From the blob of some associations these are read, if they are of one kind. -/
theorem readsRecords_associationBlob (hm : m.Fits) {kind : Association.Kind}
    {values : List (Label × Association.Value)} (h : ∀ v ∈ values, m.Has v.1)
    (hkind : ∀ v ∈ values, v.2.kind = kind) :
    m.ReadsRecords (m.associationBlob values) kind values := by
  refine ⟨values.map fun v => (m.ordinalOf v.1, v.2), ?_, ?_⟩
  · have hrecords : Association.records (values.map fun v => (m.ordinalOf v.1, v.2)) =
        m.associationBlob values := List.flatMap_map ..
    rw [← hrecords]
    refine Association.holds_records fun e he => ?_
    obtain ⟨v, hv, rfl⟩ := List.mem_map.1 he
    exact hkind v hv
  · rw [List.map_map]
    refine List.map_congr_left fun v hv => ?_
    rw [Function.comp_apply, label?_ordinalOf hm (h v hv)]

/-- The blob of some categories that were there before is the same in all later taxonomies, and in
every order. -/
theorem categoryBlob_eq_of_perm {m₁ m₂ : Memory} {labels' : List Label} (h₁ : m.Extends m₁)
    (h₂ : m.Extends m₂) (hm₁ : m₁.Fits) (hperm : labels.Perm labels')
    (h : ∀ l ∈ labels, m.Has l) :
    m₁.categoryBlob store labels = m₂.categoryBlob store labels' := by
  have hcounted : (store.counted labels).Perm (store.counted labels') := hperm.flatMap_right _
  have hthere : ∀ l ∈ store.counted labels, m.Has l := fun l hl => has_of_mem_store_counted h hl
  have hordinals : (store.counted labels).map m₁.ordinalOf =
      (store.counted labels).map m₂.ordinalOf :=
    List.map_congr_left fun l hl => by
      rw [h₁.ordinalOf_eq (hthere l hl), h₂.ordinalOf_eq (hthere l hl)]
  have hnonneg := ordinals_nonneg hm₁ fun l hl => (hthere l hl).of_extends h₁
  have hmem : ∀ o, o ∈ (store.counted labels).map m₁.ordinalOf ↔
      o ∈ (store.counted labels').map m₂.ordinalOf := fun o => by
    rw [hordinals, (hcounted.map _).mem_iff]
  exact (OrdinalSet.blob_eq_iff hnonneg fun o ho => hnonneg o ((hmem o).2 ho)).2 hmem

end Memory

/-! ## Two builds -/

theorem rel_of_isSome_iff {α β : Type} {r : α → β → Prop} {x? : Option α} {y? : Option β}
    (hsome : x?.isSome ↔ y?.isSome) (h : ∀ x ∈ x?, ∀ y ∈ y?, r x y) : Option.Rel r x? y? := by
  cases x? with
  | none =>
    cases y? with
    | none => exact .none
    | some y => exact absurd (hsome.2 rfl) Bool.false_ne_true
  | some x =>
    cases y? with
    | none => exact absurd (hsome.1 rfl) Bool.false_ne_true
    | some y => exact .some (h x rfl y rfl)

namespace Indexer

variable {ix ix₁ ix₂ : Indexer} {m m₁ m₂ : Memory} {d d' : Document} {b b' : Built}

theorem has_of_build (hbuild : ix.build Memory.taxonomy m d = (.ok b, ix₁, m₁)) {l : Label}
    (hl : l ∈ ix.settings.asked d) : m₁.Has l := by
  obtain ⟨_, _, _, hresolve, _, _⟩ := build_eq_ok hbuild
  rw [Memory.eq_addAll_of_resolve hresolve]
  exact Memory.has_addAll hl

theorem extends_of_build (hbuild : ix.build Memory.taxonomy m d = (.ok b, ix₁, m₁)) :
    m.Extends m₁ := by
  obtain ⟨_, _, _, hresolve, _, _⟩ := build_eq_ok hbuild
  rw [Memory.eq_addAll_of_resolve hresolve]
  exact Memory.extends_addAll m _

/-- The blobs of an index field are read off the taxonomy in the end. -/
theorem exists_blobs_of_build_memory (hbuild : ix.build Memory.taxonomy m d = (.ok b, ix₁, m₁))
    (hfits : m₁.Fits) (field : String) :
    ∃ set? records? : Option Bytes,
      b.added.blobsAt field = set?.toList ++ records?.toList ∧
      (set?.isSome ↔ ∃ l ∈ d.categories, ix.settings.fieldOf l = field) ∧
      (records?.isSome ↔ ∃ a ∈ d.associations, ix.settings.fieldOf a.1 = field) ∧
      (∀ blob ∈ set?, blob = m₁.categoryBlob ix.settings
        (d.categories.filter (ix.settings.fieldOf · = field))) ∧
      ∀ blob ∈ records?, blob = m₁.associationBlob
        (d.associations.filter fun a => ix.settings.fieldOf a.1 = field) := by
  obtain ⟨_, hadded⟩ := added_of_build_memory hbuild hfits
  have hcategories : AreBlobs (fun labels blob => blob = m₁.categoryBlob ix.settings labels)
      (ix.settings.routeCategories d) ((ix.settings.routeCategories d).map fun group =>
        ⟨group.1, .binary (m₁.categoryBlob ix.settings group.2)⟩) := by
    rw [AreBlobs, List.forall₂_map_right_iff, List.forall₂_same]
    exact fun group _ => ⟨_, rfl, rfl⟩
  have hassociations : AreBlobs (fun values blob => blob = m₁.associationBlob values)
      (ix.settings.routeAssociations d) ((ix.settings.routeAssociations d).map fun group =>
        ⟨group.1, .binary (m₁.associationBlob group.2)⟩) := by
    rw [AreBlobs, List.forall₂_map_right_iff, List.forall₂_same]
    exact fun group _ => ⟨_, rfl, rfl⟩
  obtain ⟨set?, hset, hsome, hvalue⟩ := hcategories.exists_blob? field
  obtain ⟨records?, hrecords, hsome', hvalue'⟩ := hassociations.exists_blob? field
  refine ⟨set?, records?, ?_, hsome, hsome', hvalue, hvalue'⟩
  rw [Addition.blobsAt, hadded, Memory.addition, Dimension.Store.addition, blobsUnder_append,
    blobsUnder_append, blobsUnder_memberFields, List.append_nil, hset, hrecords]

section Reordered

variable (hperm : d.indexable.Perm d'.indexable)
include hperm

theorem exists_refused_of_perm
    (h : ∃ violation, (ix.build Memory.taxonomy m d).1 = .error (.validation violation)) :
    ∃ violation, (ix.build Memory.taxonomy m d').1 = .error (.validation violation) := by
  obtain ⟨violation, hrefused⟩ := h
  have hexamine := examine_of_build_refused Memory.reportsNoRule (Prod.ext hrefused rfl)
  cases hother : d'.examine ix.settings ix.kinds with
  | error violation' => exact ⟨violation', by rw [build_of_examine_error hother]⟩
  | ok kinds' =>
    obtain ⟨kinds, hkinds⟩ := Document.exists_examine_ok_of_perm hperm.symm hother
    cases hexamine.symm.trans hkinds

section Built

variable (hbuild : ix.build Memory.taxonomy m d = (.ok b, ix₁, m₁))
  (hbuild' : ix.build Memory.taxonomy m d' = (.ok b', ix₂, m₂))
include hbuild hbuild'

theorem terms_perm_of_builds : b.added.terms.Perm b'.added.terms := by
  rw [terms_of_build hbuild, terms_of_build hbuild']
  exact ix.settings.terms_perm hperm

theorem has_iff_of_builds (l : Label) : m₁.Has l ↔ m₂.Has l := by
  obtain ⟨_, _, _, hresolve, _, _⟩ := build_eq_ok hbuild
  obtain ⟨_, _, _, hresolve', _, _⟩ := build_eq_ok hbuild'
  rw [Memory.eq_addAll_of_resolve hresolve, Memory.eq_addAll_of_resolve hresolve']
  exact Memory.has_addAll_congr (Dimension.Store.mem_asked_congr hperm) l

theorem kinds_eq_of_builds (field : String) : ix₁.kinds[field]? = ix₂.kinds[field]? := by
  obtain ⟨hkeep, hkinds⟩ := kinds_of_build hbuild
  obtain ⟨_, hkinds'⟩ := kinds_of_build hbuild'
  rw [hkinds, hkinds', hkeep.head?_kindsAt_eq (Document.facets_perm hperm)]

variable (hfits : m₁.Fits) (hfits' : m₂.Fits)
include hfits hfits'

/-- The set of an index field stands for the same labels; only the ordinals of categories that were
new depend on the order. -/
theorem sameSets_of_builds (field : String) :
    m₁.SameSets m₂
      (m₁.categoryBlob ix.settings (d.categories.filter (ix.settings.fieldOf · = field)))
      (m₂.categoryBlob ix.settings (d'.categories.filter (ix.settings.fieldOf · = field))) := by
  have hthere : ∀ l ∈ d.categories.filter (ix.settings.fieldOf · = field), m₁.Has l := fun l hl =>
    has_of_build hbuild (Dimension.Store.mem_asked.2 (.inl (List.mem_of_mem_filter hl)))
  have hthere' : ∀ l ∈ d'.categories.filter (ix.settings.fieldOf · = field), m₂.Has l := fun l hl =>
    has_of_build hbuild' (Dimension.Store.mem_asked.2 (.inl (List.mem_of_mem_filter hl)))
  have hcounted : (ix.settings.counted
      (d.categories.filter (ix.settings.fieldOf · = field))).Perm
        (ix.settings.counted (d'.categories.filter (ix.settings.fieldOf · = field))) :=
    ((Document.categories_perm hperm).filter _).flatMap_right _
  obtain ⟨labels, hread, hnodup, hmem⟩ := Memory.exists_readsSet_categoryBlob hfits hthere
  obtain ⟨labels', hread', hnodup', hmem'⟩ := Memory.exists_readsSet_categoryBlob hfits' hthere'
  refine ⟨labels, labels', hread, hread', ?_⟩
  rw [List.perm_ext_iff_of_nodup hnodup hnodup']
  intro l
  rw [hmem, hmem', hcounted.mem_iff]

/-- The records of an index field attach the same values to the same labels. -/
theorem sameRecords_of_builds {field : String}
    (hfield : ∃ a ∈ d.associations, ix.settings.fieldOf a.1 = field) :
    ∃ kind, ix₁.kinds[field]? = some kind ∧ m₁.SameRecords m₂ kind
      (m₁.associationBlob (d.associations.filter fun a => ix.settings.fieldOf a.1 = field))
      (m₂.associationBlob (d'.associations.filter fun a => ix.settings.fieldOf a.1 = field)) := by
  obtain ⟨kind, hknown, hkind⟩ := exists_kind_of_build hbuild hfield
  have hrouted := (Document.associations_perm hperm).filter fun a =>
    ix.settings.fieldOf a.1 = field
  refine ⟨kind, hknown, _, _,
    Memory.readsRecords_associationBlob hfits (fun a ha => ?_) hkind,
    Memory.readsRecords_associationBlob hfits' (fun a ha => ?_)
      fun a ha => hkind a (hrouted.mem_iff.2 ha), hrouted⟩
  · exact has_of_build hbuild (Dimension.Store.mem_asked.2
      (.inr (List.mem_map_of_mem (List.mem_of_mem_filter ha))))
  · exact has_of_build hbuild' (Dimension.Store.mem_asked.2
      (.inr (List.mem_map_of_mem (List.mem_of_mem_filter ha))))

/-- Both documents have the same kinds of blobs in an index field, and these say the same. -/
theorem exists_blobs_of_builds (field : String) :
    ∃ set? set?' records? records?' : Option Bytes,
      b.added.blobsAt field = set?.toList ++ records?.toList ∧
      b'.added.blobsAt field = set?'.toList ++ records?'.toList ∧
      (set?.isSome ↔ ∃ l ∈ d.categories, ix.settings.fieldOf l = field) ∧
      (records?.isSome ↔ ∃ a ∈ d.associations, ix.settings.fieldOf a.1 = field) ∧
      Option.Rel (m₁.SameSets m₂) set? set?' ∧
      Option.Rel (fun blob blob' => ∃ kind, ix₁.kinds[field]? = some kind ∧
        m₁.SameRecords m₂ kind blob blob') records? records?' ∧
      ((∀ l ∈ d.categories, m.Has l) → set? = set?') := by
  obtain ⟨set?, records?, hblobs, hset, hrecords, hsetBlob, hrecordsBlob⟩ :=
    exists_blobs_of_build_memory hbuild hfits field
  obtain ⟨set?', records?', hblobs', hset', hrecords', hsetBlob', hrecordsBlob'⟩ :=
    exists_blobs_of_build_memory hbuild' hfits' field
  have hsome : set?.isSome ↔ set?'.isSome := by
    rw [hset, hset']
    simp only [(Document.categories_perm hperm).mem_iff]
  have hsome' : records?.isSome ↔ records?'.isSome := by
    rw [hrecords, hrecords']
    simp only [(Document.associations_perm hperm).mem_iff]
  refine ⟨set?, set?', records?, records?', hblobs, hblobs', hset, hrecords, ?_, ?_, fun hold => ?_⟩
  · refine rel_of_isSome_iff hsome fun blob hblob blob' hblob' => ?_
    rw [hsetBlob blob hblob, hsetBlob' blob' hblob']
    exact sameSets_of_builds hperm hbuild hbuild' hfits hfits' field
  · refine rel_of_isSome_iff hsome' fun blob hblob blob' hblob' => ?_
    rw [hrecordsBlob blob hblob, hrecordsBlob' blob' hblob']
    exact sameRecords_of_builds hperm hbuild hbuild' hfits hfits'
      (hrecords.1 (Option.isSome_of_mem hblob))
  · have hrel : Option.Rel Eq set? set?' := by
      refine rel_of_isSome_iff hsome fun blob hblob blob' hblob' => ?_
      rw [hsetBlob blob hblob, hsetBlob' blob' hblob']
      exact Memory.categoryBlob_eq_of_perm (extends_of_build hbuild) (extends_of_build hbuild')
        hfits ((Document.categories_perm hperm).filter _)
        fun l hl => hold l (List.mem_of_mem_filter hl)
    cases hrel with
    | some heq => rw [heq]
    | none => rfl

end Built

end Reordered

/-- Two documents with the same items in different orders, over a taxonomy in memory.  Either both
are refused for a rule or neither is.  If both are built, they get the same terms, the taxonomies
have the same categories in the end, and the same kinds are remembered.  And as long as there are
ordinals for all categories, a document that is not refused is built, and in every index field both
documents have sets of the same labels and records with the same values for the same labels; if no
category was new, the sets are the same bytes. -/
theorem build_in_any_order (ix : Indexer) (m : Memory) {d d' : Document}
    (hperm : d.indexable.Perm d'.indexable) :
    ((∃ violation, (ix.build Memory.taxonomy m d).1 = .error (.validation violation)) ↔
      ∃ violation, (ix.build Memory.taxonomy m d').1 = .error (.validation violation)) ∧
    (∀ {b b' : Built} {ix₁ ix₂ : Indexer} {m₁ m₂ : Memory},
      ix.build Memory.taxonomy m d = (.ok b, ix₁, m₁) →
      ix.build Memory.taxonomy m d' = (.ok b', ix₂, m₂) →
      b.added.terms.Perm b'.added.terms ∧ (∀ l, m₁.Has l ↔ m₂.Has l) ∧
        ∀ field : String, ix₁.kinds[field]? = ix₂.kinds[field]?) ∧
    ((m.addAll (ix.settings.asked d)).size ≤ 2 ^ 31 →
      (¬ ∃ violation, (ix.build Memory.taxonomy m d).1 = .error (.validation violation)) →
      ∃ b b' ix₁ ix₂ m₁ m₂, ix.build Memory.taxonomy m d = (.ok b, ix₁, m₁) ∧
        ix.build Memory.taxonomy m d' = (.ok b', ix₂, m₂) ∧
        ∀ field : String, ∃ set? set?' records? records?' : Option Bytes,
          b.added.blobsAt field = set?.toList ++ records?.toList ∧
          b'.added.blobsAt field = set?'.toList ++ records?'.toList ∧
          (set?.isSome ↔ ∃ l ∈ d.categories, ix.settings.fieldOf l = field) ∧
          (records?.isSome ↔ ∃ a ∈ d.associations, ix.settings.fieldOf a.1 = field) ∧
          Option.Rel (m₁.SameSets m₂) set? set?' ∧
          Option.Rel (fun blob blob' => ∃ kind, ix₁.kinds[field]? = some kind ∧
            m₁.SameRecords m₂ kind blob blob') records? records?' ∧
          ((∀ l ∈ d.categories, m.Has l) → set? = set?')) := by
  refine ⟨⟨exists_refused_of_perm hperm, exists_refused_of_perm hperm.symm⟩,
    fun hbuild hbuild' => ⟨terms_perm_of_builds hperm hbuild hbuild',
      has_iff_of_builds hperm hbuild hbuild', kinds_eq_of_builds hperm hbuild hbuild'⟩,
    fun hsize haccepted => ?_⟩
  have hfits : (m.addAll (ix.settings.asked d)).Fits := Memory.fits_iff_size_le.2 hsize
  have hfits' : (m.addAll (ix.settings.asked d')).Fits := by
    rw [Memory.Fits, ← Memory.size_labels_eq
      (Memory.has_addAll_congr (Dimension.Store.mem_asked_congr hperm))]
    exact hfits
  cases hexamine : d.examine ix.settings ix.kinds with
  | error violation =>
    exact absurd ⟨violation, by rw [build_of_examine_error hexamine]⟩ haccepted
  | ok kinds =>
    obtain ⟨kinds', hexamine'⟩ := Document.exists_examine_ok_of_perm hperm hexamine
    have hbuild := build_memory_of_examine_ok hexamine hfits
    have hbuild' := build_memory_of_examine_ok hexamine' hfits'
    exact ⟨_, _, _, _, _, _, hbuild, hbuild',
      exists_blobs_of_builds hperm hbuild hbuild' hfits hfits'⟩

/-- Grades have an index field of their own, and a document may have several topics. -/
def shelfSettings : Dimension.Store :=
  (Dimension.Store.change {} "Grade" (.all ⟨false, false, false, "grades"⟩)).change "Topic"
    (.all ⟨true, true, false, "topics"⟩)

/-- A topic. -/
def shelfTopic (name : String) (h : name ≠ "") : Item :=
  .facet (.category ⟨"Topic", ["Nature", name], by decide, by simp [h]⟩ (List.cons_ne_nil _ _))

/-- A grade. -/
def shelfGrade (value : Int32) : Item :=
  .facet (.association ⟨"Grade", ["points"], by decide, by decide⟩ (.int value) (by decide))

/-- A book with two topics and two grades. -/
def shelved : Document where
  indexable := [shelfTopic "Lakes" (by decide), shelfGrade 4,
    shelfTopic "Rivers" (by decide), shelfGrade 5]

/-- The same book with its items the other way round. -/
def shelvedBackwards : Document where
  indexable := [shelfGrade 5, shelfTopic "Rivers" (by decide), shelfGrade 4,
    shelfTopic "Lakes" (by decide)]

theorem build_in_any_order_shelved :
    shelved.indexable.Perm shelvedBackwards.indexable ∧
    ∃ b b' ix₁ ix₂ m₁ m₂,
      Indexer.build ⟨shelfSettings, ∅⟩ Memory.taxonomy {} shelved = (.ok b, ix₁, m₁) ∧
      Indexer.build ⟨shelfSettings, ∅⟩ Memory.taxonomy {} shelvedBackwards = (.ok b', ix₂, m₂) ∧
      ∃ set set', b.added.blobsAt "topics" = [set] ∧ b'.added.blobsAt "topics" = [set'] ∧
        m₁.SameSets m₂ set set' := by
  have hperm : shelved.indexable.Perm shelvedBackwards.indexable :=
    List.reverse_perm shelvedBackwards.indexable
  have hsize : (Memory.addAll {} (shelfSettings.asked shelved)).labels.size = 6 := by
    decide +kernel
  have hexamine : ∃ kinds, shelved.examine shelfSettings ∅ = .ok kinds := ⟨_, rfl⟩
  obtain ⟨kinds, hexamine⟩ := hexamine
  obtain ⟨_, _, hbuilds⟩ := build_in_any_order ⟨shelfSettings, ∅⟩ {} hperm
  obtain ⟨b, b', ix₁, ix₂, m₁, m₂, hbuild, hbuild', hblobs⟩ := hbuilds
    (by rw [Memory.size, hsize]; decide) (by
      intro h
      obtain ⟨violation, hrefused⟩ := h
      cases (examine_of_build_refused Memory.reportsNoRule (Prod.ext hrefused rfl)).symm.trans
        hexamine)
  refine ⟨hperm, b, b', ix₁, ix₂, m₁, m₂, hbuild, hbuild', ?_⟩
  obtain ⟨set?, set?', records?, records?', hleft, hright, hset, hrecords, hsets, hothers, _⟩ :=
    hblobs "topics"
  have hsome : set?.isSome := by
    rw [hset]
    exact ⟨_, List.mem_cons_self, by decide +kernel⟩
  have hnone : ¬ records?.isSome := by
    rw [hrecords]
    decide +kernel
  cases hsets with
  | none => cases hsome
  | some hsame =>
    cases hothers with
    | some _ => exact absurd rfl hnone
    | none => exact ⟨_, _, hleft, hright, hsame⟩

end Indexer

end FacetIndex
