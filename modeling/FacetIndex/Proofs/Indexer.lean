/-
  Proofs/Indexer.lean --- what building a document does.

  WHAT THIS FILE IS FOR.  A document is either refused, or resolved once, and only
  then does the indexer remember its kinds.  Later files do not open `Indexer.build`
  or `Taxonomy.resolve`; they use what is proved here.

  WHAT IS PROVED.

      Taxonomy.from_resolve_eq_ok_iff
          resolving succeeds when first the blobs of the categories and then those
          of the associations are there; nothing else needs an ordinal
      Taxonomy.exists_blobs_of_resolve
          which blobs an addition has, whatever the taxonomy answers
      Indexer.build_cases, Indexer.build_eq_ok
          everything that building can do, and what it has done when it succeeds
      Indexer.indexer_eq_of_build_error
          a document that is not built leaves the indexer as it was

  WHAT IS NOT SAID.  The ordinals in the blobs are left open here; that takes a
  look at the answers, as in `Proofs/Transcript.lean`, or at the taxonomy, as in
  `Proofs/Resolution.lean`.
-/
import FacetIndex.Indexer
import FacetIndex.Proofs.Dialogue

set_option autoImplicit false

namespace FacetIndex

variable {σ : Type}

/-- Of several computations in a row that all succeed, each gives its own result. -/
theorem Ask.forall₂_of_from_mapM_eq_ok {α β : Type} {f : α → Ask σ β} {xs : List α} {ys : List β}
    {s s' : σ} (h : (xs.mapM f).from s = (.ok ys, s')) :
    List.Forall₂ (fun x y => ∃ s₁ s₂, (f x).from s₁ = (.ok y, s₂)) xs ys := by
  induction xs generalizing s ys with
  | nil =>
    cases h
    exact .nil
  | cons x xs ih =>
    rw [List.mapM_cons] at h
    obtain ⟨y, s₁, hx, h⟩ := Ask.from_bind_eq_ok_iff.1 h
    obtain ⟨ys', s₂, hxs, h⟩ := Ask.from_bind_eq_ok_iff.1 h
    cases h
    exact .cons ⟨s, s₁, hx⟩ (ih hxs)

/-- Each group has a blob under its name, in this order, and the blob is one of its elements. -/
def AreBlobs {α : Type} (IsBlob : List α → Bytes → Prop) (groups : List (String × List α))
    (fields : List CountingField) : Prop :=
  List.Forall₂ (fun group field => ∃ blob, field = ⟨group.1, .binary blob⟩ ∧ IsBlob group.2 blob)
    groups fields

theorem AreBlobs.exists_of_mem {α : Type} {IsBlob : List α → Bytes → Prop}
    {groups : List (String × List α)} {fields : List CountingField}
    (h : AreBlobs IsBlob groups fields) {group : String × List α} (hgroup : group ∈ groups) :
    ∃ field ∈ fields, ∃ blob, field = ⟨group.1, .binary blob⟩ ∧ IsBlob group.2 blob := by
  unfold AreBlobs at h
  induction h with
  | nil => cases hgroup
  | cons hone _ ih =>
    rcases List.mem_cons.1 hgroup with rfl | hgroup
    · exact ⟨_, List.mem_cons_self, hone⟩
    · obtain ⟨field, hfield, hblob⟩ := ih hgroup
      exact ⟨field, List.mem_cons_of_mem _ hfield, hblob⟩

/-- The blob is an ordinal set. -/
def OrdinalSet.IsBlob (blob : Bytes) : Prop := ∃ ordinals, encode ordinals = .ok blob

/-- The blob of some values, each with its ordinal. -/
def Association.records (rs : List (Ordinal × Association.Value)) : Bytes :=
  rs.flatMap fun r => Association.record r.1 r.2

/-- The blob is made of records with these values, in this order. -/
def Association.IsBlob (values : List (Label × Association.Value)) (blob : Bytes) : Prop :=
  ∃ rs : List (Ordinal × Association.Value),
    rs.map (·.2) = values.map (·.2) ∧ blob = records rs

/-- Asks for the blobs of some groups, each of which goes to the field that it is named after. -/
def Ask.blobs {α : Type} (blobOf : List α → Ask σ Bytes) (groups : List (String × List α)) :
    Ask σ (List CountingField) :=
  groups.mapM fun group => do
    let blob ← blobOf group.2
    return ⟨group.1, .binary blob⟩

/-- Blobs that are asked for group by group stand under the names of their groups. -/
theorem Ask.areBlobs_of_from_blobs {α : Type} {IsBlob : List α → Bytes → Prop}
    {blobOf : List α → Ask σ Bytes}
    (hblob : ∀ {xs s s' blob}, (blobOf xs).from s = (.ok blob, s') → IsBlob xs blob)
    {groups : List (String × List α)} {fields : List CountingField} {s s' : σ}
    (h : (blobs blobOf groups).from s = (.ok fields, s')) : AreBlobs IsBlob groups fields := by
  refine (forall₂_of_from_mapM_eq_ok h).imp fun group field hone => ?_
  obtain ⟨s₁, s₂, hone⟩ := hone
  obtain ⟨blob, s₃, hget, hone⟩ := from_bind_eq_ok_iff.1 hone
  cases hone
  exact ⟨blob, rfl, hblob hget⟩

namespace Taxonomy

variable {t : Taxonomy σ} {store : Dimension.Store} {d : Document} {s s' : σ} {added : Addition}

/-- Resolving a document succeeds when first the blobs of its categories and then those of its
associations are there; what it adds besides needs no ordinals. -/
theorem from_resolve_eq_ok_iff :
    (t.resolve store d).from s = (.ok added, s') ↔
      ∃ sets s₁ records,
        (Ask.blobs (t.categoryBlob store) (store.routeCategories d)).from s = (.ok sets, s₁) ∧
        (Ask.blobs t.associationBlob (store.routeAssociations d)).from s₁ = (.ok records, s') ∧
        added = store.addition d sets records := by
  have hresolve : t.resolve store d =
      Ask.blobs (t.categoryBlob store) (store.routeCategories d) >>= fun sets =>
        Ask.blobs t.associationBlob (store.routeAssociations d) >>= fun records =>
          pure (store.addition d sets records) := rfl
  rw [hresolve, Ask.from_bind_eq_ok_iff]
  refine exists_congr fun sets => exists_congr fun s₁ => ?_
  constructor
  · rintro ⟨hsets, h⟩
    obtain ⟨records, s₂, hrecords, h⟩ := Ask.from_bind_eq_ok_iff.1 h
    cases h
    exact ⟨records, hsets, hrecords, rfl⟩
  · rintro ⟨records, hsets, hrecords, rfl⟩
    exact ⟨hsets, Ask.from_bind_of_ok hrecords⟩

/-- The blob of some categories is the set of ordinals that the taxonomy gave for them. -/
theorem isBlob_of_categoryBlob {labels : List Label} {blob : Bytes}
    (h : (t.categoryBlob store labels).from s = (.ok blob, s')) : OrdinalSet.IsBlob blob := by
  unfold categoryBlob at h
  obtain ⟨ordinals, s₁, _, h⟩ := Ask.from_bind_eq_ok_iff.1 h
  split at h
  next encoded hencode =>
    cases h
    exact ⟨ordinals.flatten, hencode⟩
  next => cases h

/-- The blob of some associations holds their values in this order. -/
theorem isBlob_of_associationBlob {values : List (Label × Association.Value)} {blob : Bytes}
    (h : (t.associationBlob values).from s = (.ok blob, s')) : Association.IsBlob values blob := by
  unfold associationBlob at h
  rw [Ask.from_bind_eq_ok_iff] at h
  obtain ⟨parts, s₁, hparts, h⟩ := h
  cases h
  have hrecords := Ask.forall₂_of_from_mapM_eq_ok hparts
  clear hparts
  induction hrecords with
  | nil => exact ⟨[], rfl, rfl⟩
  | cons hone _ ih =>
    obtain ⟨s₂, s₃, hone⟩ := hone
    obtain ⟨o, s₄, _, hone⟩ := Ask.from_bind_eq_ok_iff.1 hone
    cases hone
    obtain ⟨rs, hvalues, hblob⟩ := ih
    refine ⟨(o, _) :: rs, by rw [List.map_cons, List.map_cons, hvalues], ?_⟩
    rw [List.flatten_cons, hblob]
    rfl

/-- Whatever the taxonomy answers, the addition differs from others in its blobs only: an ordinal
set for each index field with categories, and one of records for each with associations. -/
theorem exists_blobs_of_resolve (h : (t.resolve store d).from s = (.ok added, s')) :
    ∃ categoryBlobs associationBlobs,
      added = store.addition d categoryBlobs associationBlobs ∧
      AreBlobs (fun _ => OrdinalSet.IsBlob) (store.routeCategories d) categoryBlobs ∧
      AreBlobs Association.IsBlob (store.routeAssociations d) associationBlobs := by
  obtain ⟨sets, s₁, records, hsets, hrecords, hadded⟩ := from_resolve_eq_ok_iff.1 h
  exact ⟨sets, records, hadded, Ask.areBlobs_of_from_blobs isBlob_of_categoryBlob hsets,
    Ask.areBlobs_of_from_blobs isBlob_of_associationBlob hrecords⟩

/-- Whatever the taxonomy answers, the addition differs from others in its blobs only, and each
index field with associations has a blob of their values. -/
theorem exists_addition_of_resolve (h : (t.resolve store d).from s = (.ok added, s')) :
    ∃ categoryBlobs associationBlobs,
      added = store.addition d categoryBlobs associationBlobs ∧
      ∀ group ∈ store.routeAssociations d, ∃ rs : List (Ordinal × Association.Value),
        rs.map (·.2) = group.2.map (·.2) ∧
          ⟨group.1, .binary (Association.records rs)⟩ ∈ associationBlobs := by
  obtain ⟨categoryBlobs, associationBlobs, hadded, _, hassociations⟩ := exists_blobs_of_resolve h
  refine ⟨categoryBlobs, associationBlobs, hadded, fun group hgroup => ?_⟩
  obtain ⟨field, hfield, blob, rfl, rs, hvalues, rfl⟩ := hassociations.exists_of_mem hgroup
  exact ⟨rs, hvalues, hfield⟩

end Taxonomy

namespace Indexer

variable {ix ix' : Indexer} {t : Taxonomy σ} {s s' : σ} {d : Document}

theorem build_of_examine_error {violation : Violation}
    (h : d.examine ix.settings ix.kinds = .error violation) :
    ix.build t s d = (.error (.validation violation), ix, s) := by
  simp only [build, h]

theorem build_of_resolve_error {kinds : KindTable} {memo : Memo} {e : Error}
    (hexamine : d.examine ix.settings ix.kinds = .ok kinds)
    (hresolve : (t.memoised.resolve ix.settings d).from (s, {}) = (.error e, s', memo)) :
    ix.build t s d = (.error e, ix, s') := by
  simp only [build, hexamine, hresolve]

theorem build_of_resolve_ok {kinds : KindTable} {memo : Memo} {added : Addition}
    (hexamine : d.examine ix.settings ix.kinds = .ok kinds)
    (hresolve : (t.memoised.resolve ix.settings d).from (s, {}) = (.ok added, s', memo)) :
    ix.build t s d = (.ok ⟨d, added⟩, ix.track kinds, s') := by
  simp only [build, hexamine, hresolve]

/-- Everything that building can do: it refuses the document, or it fails to resolve it, or it
resolves it and remembers its kinds. -/
theorem build_cases (ix : Indexer) (t : Taxonomy σ) (s : σ) (d : Document) :
    (∃ violation, d.examine ix.settings ix.kinds = .error violation ∧
      ix.build t s d = (.error (.validation violation), ix, s)) ∨
    ∃ kinds s' memo, d.examine ix.settings ix.kinds = .ok kinds ∧
      ((∃ e, (t.memoised.resolve ix.settings d).from (s, {}) = (.error e, s', memo) ∧
        ix.build t s d = (.error e, ix, s')) ∨
      ∃ added, (t.memoised.resolve ix.settings d).from (s, {}) = (.ok added, s', memo) ∧
        ix.build t s d = (.ok ⟨d, added⟩, ix.track kinds, s')) := by
  cases hexamine : d.examine ix.settings ix.kinds with
  | error violation => exact Or.inl ⟨violation, rfl, build_of_examine_error hexamine⟩
  | ok kinds =>
    right
    rcases hresolve : (t.memoised.resolve ix.settings d).from (s, {}) with ⟨result, s', memo⟩
    refine ⟨kinds, s', memo, rfl, ?_⟩
    cases result with
    | error e => exact Or.inl ⟨e, hresolve, build_of_resolve_error hexamine hresolve⟩
    | ok added => exact Or.inr ⟨added, hresolve, build_of_resolve_ok hexamine hresolve⟩

/-- A document is built when it is admitted and can be resolved. -/
theorem build_eq_ok {b : Built} (h : ix.build t s d = (.ok b, ix', s')) :
    ∃ kinds memo, d.examine ix.settings ix.kinds = .ok kinds ∧
      (t.memoised.resolve ix.settings d).from (s, {}) = (.ok b.added, s', memo) ∧
      b.source = d ∧ ix' = ix.track kinds := by
  obtain ⟨violation, _, hbuild⟩ | ⟨kinds, s₁, memo, hexamine, hresolve⟩ := ix.build_cases t s d
  · cases hbuild.symm.trans h
  · obtain ⟨e, _, hbuild⟩ | ⟨added, hresolve, hbuild⟩ := hresolve
    · cases hbuild.symm.trans h
    · cases hbuild.symm.trans h
      exact ⟨kinds, memo, hexamine, hresolve, rfl, rfl⟩

/-- The added terms are those that the settings give, whatever the taxonomy answers. -/
theorem terms_of_build {b : Built} (h : ix.build t s d = (.ok b, ix', s')) :
    b.added.terms = ix.settings.terms d := by
  obtain ⟨kinds, memo, _, hresolve, _, _⟩ := build_eq_ok h
  obtain ⟨categoryBlobs, associationBlobs, hadded, _⟩ :=
    Taxonomy.exists_addition_of_resolve hresolve
  rw [hadded]
  rfl

/-- A document that is not built leaves the indexer as it was. -/
theorem indexer_eq_of_build_error {e : Error} (h : ix.build t s d = (.error e, ix', s')) :
    ix' = ix := by
  obtain ⟨violation, _, hbuild⟩ | ⟨kinds, s₁, memo, _, hresolve⟩ := ix.build_cases t s d
  · cases hbuild.symm.trans h
    rfl
  · obtain ⟨e', _, hbuild⟩ | ⟨added, _, hbuild⟩ := hresolve
    · cases hbuild.symm.trans h
      rfl
    · cases hbuild.symm.trans h

end Indexer

end FacetIndex
