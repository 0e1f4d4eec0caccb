/-
  Proofs/History.lean --- the kinds of index fields over time.

  WHAT THIS FILE IS FOR.  An indexer builds documents one after the other; in
  between, the settings of dimensions change, and others may use the taxonomy.  A
  `Session` serves such requests and keeps a `Receipt` for each document that was
  built.  Whatever happens, an index field has the kind of the associations that
  were first written there.

  THE INVARIANT.  `Session.Faithful`: the kinds that are known are those that were
  written first, no others were written, and what was written is what the documents
  have.  Every request keeps it (`Session.Faithful.serve`), so that any sequence of
  requests does (`Session.Faithful.serveAll`).

  WHAT IS PROVED.

      Receipt.wrote_iff_of_build   a built document has written the kinds of its
                                   associations, each to the field of its dimension
      kind_eq_first_written        the kind of a field is the one that was written
                                   first; it is known from then on and not before,
                                   and nothing of another kind is ever written

  WHAT IS NOT SAID.  Nothing about what the blobs hold besides their kind.
-/
import FacetIndex.Proofs.Admission
import FacetIndex.Proofs.Routing

set_option autoImplicit false

namespace FacetIndex

open Std (TreeMap)

theorem KindTable.getElem?_foldl_insertIfNew (entries : List (String × Association.Kind))
    (known : KindTable) (field : String) :
    (entries.foldl (fun known e => known.insertIfNew e.1 e.2) known)[field]? =
      known[field]?.or ((entries.find? (compare ·.1 field == .eq)).map (·.2)) := by
  induction entries generalizing known with
  | nil => rw [List.foldl_nil, List.find?_nil, Option.map_none, Option.or_none]
  | cons e es ih =>
    rw [List.foldl_cons, ih, TreeMap.getElem?_insertIfNew, List.find?_cons]
    cases hcompare : compare e.1 field with
    | eq =>
      have heq : e.1 = field := Std.LawfulEqCmp.eq_of_compare hcompare
      subst heq
      simp only [beq_self_eq_true, true_and, Option.map_some]
      split
      next hnew => rw [TreeMap.getElem?_eq_none hnew, Option.some_or, Option.none_or]
      next hold =>
        have hmem : e.1 ∈ known := Decidable.not_not.1 hold
        rw [TreeMap.getElem?_eq_some_getElem hmem, Option.some_or, Option.some_or]
    | lt =>
      simp only [reduceCtorEq, false_and, if_false]
      rfl
    | gt =>
      simp only [reduceCtorEq, false_and, if_false]
      rfl

theorem KindTable.map_find?_toList (kinds : KindTable) (field : String) :
    (kinds.toList.find? (compare ·.1 field == .eq)).map (·.2) = kinds[field]? := by
  cases h : kinds.toList.find? (compare ·.1 field == .eq) with
  | none => exact (TreeMap.getElem?_eq_none (TreeMap.find?_toList_eq_none_iff_not_mem.1 h)).symm
  | some e =>
    exact (TreeMap.find?_toList_eq_some_iff_getKey?_eq_some_and_getElem?_eq_some.1 h).2.symm

/-- What is known of a field stays, and the rest is learnt from the document. -/
theorem Indexer.getElem?_track (ix : Indexer) (kinds : KindTable) (field : String) :
    (ix.track kinds).kinds[field]? = ix.kinds[field]?.or kinds[field]? := by
  unfold track
  rw [TreeMap.foldl_eq_foldl_toList, KindTable.getElem?_foldl_insertIfNew,
    KindTable.map_find?_toList]

/-! ## Receipts -/

/-- A document that was built, with the settings it was built under. -/
structure Receipt where
  settings : Dimension.Store
  built : Built

namespace Receipt

/-- The document has associations in an index field, and one of them is of this kind: what was added
to it for counting has a blob of their values under the name of the field. -/
def Wrote (r : Receipt) (field : String) (kind : Association.Kind) : Prop :=
  ∃ group ∈ r.settings.routeAssociations r.built.source, group.1 = field ∧
    kind ∈ group.2.map (·.2.kind) ∧
    ∃ rs : List (Ordinal × Association.Value), rs.map (·.2) = group.2.map (·.2) ∧
      ⟨field, .binary (Association.records rs)⟩ ∈ r.built.added.counting

/-- The first of several receipts with associations in the field has one of this kind there. -/
def FirstWrote (receipts : List Receipt) (field : String) (kind : Association.Kind) : Prop :=
  ∃ earlier r later, receipts = earlier ++ r :: later ∧
    (∀ q ∈ earlier, ∀ other, ¬ q.Wrote field other) ∧ r.Wrote field kind

theorem firstWrote_concat_of_firstWrote {receipts : List Receipt} {r : Receipt} {field : String}
    {kind : Association.Kind} (h : FirstWrote receipts field kind) :
    FirstWrote (receipts ++ [r]) field kind := by
  obtain ⟨earlier, q, later, rfl, hearlier, hwrote⟩ := h
  exact ⟨earlier, q, later ++ [r], by rw [List.append_assoc, List.cons_append], hearlier, hwrote⟩

end Receipt

theorem Document.mem_associations_iff {d : Document} {label : Label} {value : Association.Value} :
    (label, value) ∈ d.associations ↔
      ∃ path_ne, Facet.association label value path_ne ∈ d.facets := by
  unfold associations
  rw [List.mem_filterMap]
  constructor
  · intro h
    obtain ⟨f, hf, hassociation⟩ := h
    cases f with
    | category label' path_ne => cases hassociation
    | member dimension value' dimension_ne value_ne => cases hassociation
    | association label' value' path_ne =>
      cases hassociation
      exact ⟨path_ne, hf⟩
  · intro h
    obtain ⟨path_ne, hf⟩ := h
    exact ⟨_, hf, rfl⟩

/-- The kinds that go to an index field are those of the associations that go there. -/
theorem Dimension.Store.mem_kindsAt_facets_iff {store : Dimension.Store} {field : String}
    {d : Document} {kind : Association.Kind} :
    kind ∈ store.kindsAt field d.facets ↔
      ∃ a ∈ d.associations, store.fieldOf a.1 = field ∧ a.2.kind = kind := by
  unfold kindsAt
  rw [List.mem_filterMap]
  constructor
  · rintro ⟨f, hf, hkind⟩
    obtain ⟨label, value, path_ne, rfl, hfield, rfl⟩ := Facet.kindAt?_eq_some_iff.1 hkind
    exact ⟨(label, value), Document.mem_associations_iff.2 ⟨path_ne, hf⟩, hfield, rfl⟩
  · rintro ⟨⟨label, value⟩, hmem, hfield, rfl⟩
    obtain ⟨path_ne, hf⟩ := Document.mem_associations_iff.1 hmem
    exact ⟨_, hf, Facet.kindAt?_eq_some_iff.2 ⟨label, value, path_ne, rfl, hfield, rfl⟩⟩

/-- So are the kinds in its group. -/
theorem Dimension.Store.exists_group_iff {store : Dimension.Store} {field : String} {d : Document}
    {kind : Association.Kind} :
    (∃ group ∈ store.routeAssociations d, group.1 = field ∧ kind ∈ group.2.map (·.2.kind)) ↔
      ∃ a ∈ d.associations, store.fieldOf a.1 = field ∧ a.2.kind = kind := by
  constructor
  · rintro ⟨group, hgroup, rfl, hkind⟩
    rw [(Routing.mem_byField.1 hgroup).2] at hkind
    obtain ⟨a, ha, rfl⟩ := List.mem_map.1 hkind
    obtain ⟨hmem, hfield⟩ := List.mem_filter.1 ha
    exact ⟨a, hmem, of_decide_eq_true hfield, rfl⟩
  · rintro ⟨a, ha, rfl, rfl⟩
    refine ⟨(store.fieldOf a.1, d.associations.filter (store.fieldOf ·.1 = store.fieldOf a.1)),
      Routing.mem_byField.2 ⟨List.mem_map_of_mem ha, rfl⟩, rfl, ?_⟩
    exact List.mem_map.2 ⟨a, List.mem_filter.2 ⟨ha, decide_eq_true rfl⟩, rfl⟩

variable {σ : Type} {t : Taxonomy σ}

/-- The receipt of a document says what was written: the kinds of its associations, each to the
field of its dimension. -/
theorem Receipt.wrote_iff_of_build {ix ix' : Indexer} {s s' : σ} {d : Document} {b : Built}
    (hbuild : ix.build t s d = (.ok b, ix', s')) {field : String} {kind : Association.Kind} :
    (Receipt.mk ix.settings b).Wrote field kind ↔
      ∃ a ∈ b.source.associations, ix.settings.fieldOf a.1 = field ∧ a.2.kind = kind := by
  obtain ⟨kinds, memo, _, hresolve, rfl, _⟩ := Indexer.build_eq_ok hbuild
  obtain ⟨categoryBlobs, associationBlobs, hadded, hblobs⟩ :=
    Taxonomy.exists_addition_of_resolve hresolve
  unfold Wrote
  rw [← Dimension.Store.exists_group_iff]
  constructor
  · rintro ⟨group, hgroup, hfield, hkind, _⟩
    exact ⟨group, hgroup, hfield, hkind⟩
  · rintro ⟨group, hgroup, rfl, hkind⟩
    obtain ⟨rs, hvalues, hblob⟩ := hblobs group hgroup
    refine ⟨group, hgroup, rfl, hkind, rs, hvalues, ?_⟩
    rw [hadded]
    exact List.mem_append_right _ hblob

/-- Building a document makes known the kinds of the fields of which none was known. -/
theorem Indexer.kinds_of_build {ix ix' : Indexer} {s s' : σ} {d : Document} {b : Built}
    (hbuild : ix.build t s d = (.ok b, ix', s')) :
    Facet.KeepRules ix.settings ix.kinds d.facets ∧ ∀ field,
      ix'.kinds[field]? = ix.kinds[field]?.or (ix.settings.kindsAt field d.facets).head? := by
  obtain ⟨kinds, memo, hexamine, _, _, rfl⟩ := build_eq_ok hbuild
  obtain ⟨hkeep, hkinds⟩ := Document.keepRules_of_examine_ok hexamine
  refine ⟨hkeep, fun field => ?_⟩
  rw [getElem?_track, hkinds]

/-- The kind of an association is known once its document is built. -/
theorem Indexer.kinds_of_build_of_mem {ix ix' : Indexer} {s s' : σ} {d : Document} {b : Built}
    (hbuild : ix.build t s d = (.ok b, ix', s')) {field : String} {kind : Association.Kind}
    (h : kind ∈ ix.settings.kindsAt field d.facets) : ix'.kinds[field]? = some kind := by
  obtain ⟨hkeep, hkinds⟩ := kinds_of_build hbuild
  obtain ⟨hsame, htracked⟩ := hkeep.uniform field kind h
  rw [hkinds]
  cases hknown : ix.kinds[field]? with
  | some known => rw [htracked known hknown, Option.some_or]
  | none =>
    cases hkinds : ix.settings.kindsAt field d.facets with
    | nil =>
      rw [hkinds] at h
      cases h
    | cons first rest =>
      have hfirst : first = kind := hsame first (hkinds ▸ List.mem_cons_self)
      rw [hfirst, List.head?_cons, Option.none_or]

/-! ## Sessions -/

/-- What an indexer is asked to do, and what others do meanwhile. -/
inductive Request (σ : Type) where
  /-- Builds a document. -/
  | build (d : Document)
  /-- Changes the settings of a dimension. -/
  | change (dimension : String) (c : Dimension.Change)
  /-- Others use the taxonomy and leave it like this. -/
  | outside (s : σ)

/-- An indexer at work on a taxonomy. -/
structure Session (σ : Type) where
  indexer : Indexer
  taxonomy : σ
  /-- The documents that were built, the oldest first. -/
  receipts : List Receipt := []

namespace Session

/-- Serves a request.  Only a document that is built leaves a receipt. -/
def serve (t : Taxonomy σ) (x : Session σ) : Request σ → Session σ
  | .build d =>
      match x.indexer.build t x.taxonomy d with
      | (.ok b, ix, s) => ⟨ix, s, x.receipts ++ [⟨x.indexer.settings, b⟩]⟩
      | (.error _, ix, s) => ⟨ix, s, x.receipts⟩
  | .change dimension c =>
      { x with indexer.settings := x.indexer.settings.change dimension c }
  | .outside s => { x with taxonomy := s }

/-- Serves requests one after the other. -/
def serveAll (t : Taxonomy σ) (x : Session σ) (requests : List (Request σ)) : Session σ :=
  requests.foldl (serve t) x

theorem serve_build_of_ok {x : Session σ} {d : Document} {b : Built} {ix : Indexer} {s : σ}
    (h : x.indexer.build t x.taxonomy d = (.ok b, ix, s)) :
    x.serve t (.build d) = ⟨ix, s, x.receipts ++ [⟨x.indexer.settings, b⟩]⟩ := by
  simp only [serve, h]

theorem serve_build_of_error {x : Session σ} {d : Document} {e : Error} {ix : Indexer} {s : σ}
    (h : x.indexer.build t x.taxonomy d = (.error e, ix, s)) :
    x.serve t (.build d) = { x with taxonomy := s } := by
  simp only [serve, h, Indexer.indexer_eq_of_build_error h]

/-- A request leaves kinds and receipts alone, or it builds a document. -/
theorem serve_cases (t : Taxonomy σ) (x : Session σ) (request : Request σ) :
    (x.serve t request).indexer.kinds = x.indexer.kinds ∧
        (x.serve t request).receipts = x.receipts ∨
      ∃ d b ix s, x.indexer.build t x.taxonomy d = (.ok b, ix, s) ∧
        x.serve t request = ⟨ix, s, x.receipts ++ [⟨x.indexer.settings, b⟩]⟩ := by
  cases request with
  | build d =>
    rcases hbuild : x.indexer.build t x.taxonomy d with ⟨result, ix, s⟩
    cases result with
    | ok b => exact Or.inr ⟨d, b, ix, s, hbuild, serve_build_of_ok hbuild⟩
    | error e =>
      rw [serve_build_of_error hbuild]
      exact Or.inl ⟨rfl, rfl⟩
  | change dimension c => exact Or.inl ⟨rfl, rfl⟩
  | outside s => exact Or.inl ⟨rfl, rfl⟩

/-- A known kind stays. -/
theorem kinds_serve {x : Session σ} {field : String} {kind : Association.Kind}
    (h : x.indexer.kinds[field]? = some kind) (request : Request σ) :
    (x.serve t request).indexer.kinds[field]? = some kind := by
  obtain ⟨hkinds, _⟩ | ⟨d, b, ix, s, hbuild, hserve⟩ := serve_cases t x request
  · rw [hkinds, h]
  · rw [hserve, (Indexer.kinds_of_build hbuild).2, h, Option.some_or]

theorem kinds_serveAll {x : Session σ} {field : String} {kind : Association.Kind}
    (h : x.indexer.kinds[field]? = some kind) (requests : List (Request σ)) :
    (x.serveAll t requests).indexer.kinds[field]? = some kind := by
  induction requests generalizing x with
  | nil => exact h
  | cons request requests ih => exact ih (kinds_serve h request)

/-- The kinds that are known are those that were written first, and no others were written; what
was written is what the documents have. -/
structure Faithful (x : Session σ) : Prop where
  first : ∀ field kind, x.indexer.kinds[field]? = some kind →
    Receipt.FirstWrote x.receipts field kind
  uniform : ∀ r ∈ x.receipts, ∀ field kind, r.Wrote field kind →
    x.indexer.kinds[field]? = some kind
  wrote_iff : ∀ r ∈ x.receipts, ∀ field kind, r.Wrote field kind ↔
    ∃ a ∈ r.built.source.associations, r.settings.fieldOf a.1 = field ∧ a.2.kind = kind

theorem Faithful.build {x : Session σ} (h : x.Faithful) {d : Document} {b : Built} {ix : Indexer}
    {s : σ} (hbuild : x.indexer.build t x.taxonomy d = (.ok b, ix, s)) :
    Faithful ⟨ix, s, x.receipts ++ [⟨x.indexer.settings, b⟩]⟩ := by
  obtain ⟨_, hkinds⟩ := Indexer.kinds_of_build hbuild
  obtain ⟨_, _, _, _, rfl, _⟩ := Indexer.build_eq_ok hbuild
  refine ⟨fun field kind hkind => ?_, fun r hr field kind hwrote => ?_, fun r hr field kind => ?_⟩
  · rw [hkinds] at hkind
    cases hknown : x.indexer.kinds[field]? with
    | some known =>
      rw [hknown, Option.some_or] at hkind
      cases hkind
      exact Receipt.firstWrote_concat_of_firstWrote (h.first field kind hknown)
    | none =>
      -- No earlier document has written to the field, so that this one is the first.
      rw [hknown, Option.none_or] at hkind
      refine ⟨x.receipts, _, [], rfl, fun q hq other hother => ?_, ?_⟩
      · cases hknown.symm.trans (h.uniform q hq field other hother)
      · exact (Receipt.wrote_iff_of_build hbuild).2
          (Dimension.Store.mem_kindsAt_facets_iff.1 (List.mem_of_head? hkind))
  · rcases List.mem_append.1 hr with hr | hr
    · rw [hkinds, h.uniform r hr field kind hwrote, Option.some_or]
    · cases List.mem_singleton.1 hr
      exact Indexer.kinds_of_build_of_mem hbuild
        (Dimension.Store.mem_kindsAt_facets_iff.2 ((Receipt.wrote_iff_of_build hbuild).1 hwrote))
  · rcases List.mem_append.1 hr with hr | hr
    · exact h.wrote_iff r hr field kind
    · cases List.mem_singleton.1 hr
      exact Receipt.wrote_iff_of_build hbuild

theorem Faithful.serve {x : Session σ} (h : x.Faithful) (request : Request σ) :
    (x.serve t request).Faithful := by
  obtain ⟨hkinds, hreceipts⟩ | ⟨d, b, ix, s, hbuild, hserve⟩ := serve_cases t x request
  · refine ⟨?_, ?_, ?_⟩
    · rw [hkinds, hreceipts]
      exact h.first
    · rw [hkinds, hreceipts]
      exact h.uniform
    · rw [hreceipts]
      exact h.wrote_iff
  · rw [hserve]
    exact h.build hbuild

theorem Faithful.serveAll {x : Session σ} (h : x.Faithful) (requests : List (Request σ)) :
    (x.serveAll t requests).Faithful := by
  induction requests generalizing x with
  | nil => exact h
  | cons request requests ih => exact ih (h.serve request)

theorem faithful_new (settings : Dimension.Store) (s : σ) :
    Faithful (Session.mk ⟨settings, ∅⟩ s []) where
  first field kind h := by
    rw [TreeMap.getElem?_emptyc] at h
    cases h
  uniform r hr := absurd hr List.not_mem_nil
  wrote_iff r hr := absurd hr List.not_mem_nil

end Session

/-- Whatever a new indexer is asked to do, the kind of an index field is the one that was written
there first.  It is known as soon as something is written there and not before, it stays, and
nothing of another kind is ever written there.  And what is written are the associations of the
documents that were built: each of them to the field of its dimension at that time, and no others.
-/
theorem kind_eq_first_written (t : Taxonomy σ) (settings : Dimension.Store) (s : σ)
    (requests : List (Request σ)) (field : String) :
    let x := Session.serveAll t ⟨⟨settings, ∅⟩, s, []⟩ requests
    (∀ kind, x.indexer.kinds[field]? = some kind ↔ Receipt.FirstWrote x.receipts field kind) ∧
    (x.indexer.kinds[field]? = none ↔ ∀ r ∈ x.receipts, ∀ kind, ¬ r.Wrote field kind) ∧
    (∀ kind, x.indexer.kinds[field]? = some kind →
      ∀ further, (x.serveAll t further).indexer.kinds[field]? = some kind) ∧
    (∀ r ∈ x.receipts, ∀ q ∈ x.receipts, ∀ kind other,
      r.Wrote field kind → q.Wrote field other → kind = other) ∧
    ∀ r ∈ x.receipts, ∀ kind, r.Wrote field kind ↔
      ∃ a ∈ r.built.source.associations, r.settings.fieldOf a.1 = field ∧ a.2.kind = kind := by
  intro x
  have hx : x.Faithful := (Session.faithful_new settings s).serveAll requests
  refine ⟨fun kind => ⟨hx.first field kind, ?_⟩, ⟨?_, ?_⟩, ?_, ?_,
    fun r hr => hx.wrote_iff r hr field⟩
  · intro h
    obtain ⟨earlier, r, later, hreceipts, _, hwrote⟩ := h
    refine hx.uniform r ?_ field kind hwrote
    rw [hreceipts]
    exact List.mem_append_right _ List.mem_cons_self
  · intro hnone r hr kind hwrote
    cases hnone.symm.trans (hx.uniform r hr field kind hwrote)
  · intro hnone
    cases hkind : x.indexer.kinds[field]? with
    | none => rfl
    | some kind =>
      obtain ⟨earlier, r, later, hreceipts, _, hwrote⟩ := hx.first field kind hkind
      refine absurd hwrote (hnone r ?_ kind)
      rw [hreceipts]
      exact List.mem_append_right _ List.mem_cons_self
  · exact fun kind hkind further => Session.kinds_serveAll hkind further
  · intro r hr q hq kind other hkind hother
    have hknown := hx.uniform r hr field kind hkind
    exact Option.some.inj (hknown.symm.trans (hx.uniform q hq field other hother))

end FacetIndex
