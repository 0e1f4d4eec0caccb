/-
  Proofs/AssociationRecords.lean --- associations are read back from their blob.

  WHAT THIS FILE IS FOR.  A record has an ordinal and a value, and no separator
  stands between two records.  Numbers take four bytes, so that a blob of them is
  cut into records in one way only.  Byte strings carry no length: an application
  has to know where they end, and then finds them behind their ordinals.
  `Association.Holds` is what such an application reads, for each of the kinds.

  WHAT IS PROVED.

      Association.Records.ofBytes_eq_ok_iff
          a blob has certain records exactly if it consists of their bytes
      Association.holds_records
          records of one kind are read back from what is written for them
      Memory.from_associationBlob
          the blob over a taxonomy in memory can be read off it in the end
      Indexer.exists_kind_of_build
          the associations of an index field are of one kind, which is known then
      Association.read_back_of_build
          the blob of an index field of a built document holds the ordinal and
          the value of each association that goes there, bit for bit and in the
          order of the document

  WHAT IS NOT SAID.  The ordinals are those of a taxonomy in memory.  For other
  taxonomies `Proofs/Streams.lean` ties them to what was answered.
-/
import FacetIndex.Proofs.Blobs
import FacetIndex.Proofs.History
import FacetIndex.Proofs.Numbering

set_option autoImplicit false

namespace FacetIndex

namespace Association

/-! ## Records of a fixed size -/

namespace Records

/-- The bytes of records. -/
def bytes (r : Records) : Bytes :=
  r.entries.flatMap fun e => Word.bytes e.1.toUInt32 ++ Word.bytes e.2

theorem cut_flatMap (entries : List (Ordinal × UInt32)) :
    cut (entries.flatMap fun e => Word.bytes e.1.toUInt32 ++ Word.bytes e.2) = some entries := by
  induction entries with
  | nil => rfl
  | cons e entries ih => rw [List.flatMap_cons, cut_append, ih, Option.map_some]

theorem eq_flatMap_of_cut {blob : Bytes} {entries : List (Ordinal × UInt32)}
    (hcut : cut blob = some entries) :
    blob = entries.flatMap fun e => Word.bytes e.1.toUInt32 ++ Word.bytes e.2 := by
  fun_induction cut blob generalizing entries with
  | case1 =>
    cases hcut
    rfl
  | case2 a b c d e f g h rest ih =>
    obtain ⟨further, hrest, rfl⟩ := Option.map_eq_some_iff.1 hcut
    rw [List.flatMap_cons, ← ih hrest, UInt32.toUInt32_toInt32, Word.bytes_ofBytes,
      Word.bytes_ofBytes]
    rfl
  | case3 => cases hcut

/-- A blob has certain records exactly if it consists of their bytes. -/
theorem ofBytes_eq_ok_iff {blob : Bytes} {r : Records} : ofBytes blob = .ok r ↔ blob = r.bytes := by
  unfold ofBytes
  constructor
  · intro h
    split at h
    next entries hcut =>
      cases h
      exact eq_flatMap_of_cut hcut
    next => cases h
  · rintro rfl
    rw [bytes, cut_flatMap]

/-- Written back as integers, records are what they were. -/
theorem records_ints (r : Records) :
    records (r.ints.map fun e => (e.1, .int e.2)) = r.bytes := by
  rw [records, ints, List.map_map, List.flatMap_map]
  refine List.flatMap_congr fun e _ => ?_
  rw [Function.comp_apply, record, Value.encode, UInt32.toUInt32_toInt32]

/-- Written back as single-precision numbers, they are, too. -/
theorem records_floats (r : Records) :
    records (r.floats.map fun e => (e.1, .float e.2)) = r.bytes := by
  rw [records, List.flatMap_map]
  rfl

end Records

/-! ## Blobs of one kind -/

/-- What an application that knows the kind of an index field reads from its blob: numbers are cut
into records, and byte strings stand behind the four bytes of their ordinals, as they are. -/
def Holds (blob : Bytes) : Kind → List (Ordinal × Value) → Prop
  | .int, rs => ∃ r, Records.ofBytes blob = .ok r ∧ r.ints.map (fun e => (e.1, .int e.2)) = rs
  | .float, rs => ∃ r, Records.ofBytes blob = .ok r ∧ r.floats.map (fun e => (e.1, .float e.2)) = rs
  | .bytes, rs => ∃ payloads : List (Ordinal × Bytes),
      blob = payloads.flatMap (fun e => Word.bytes e.1.toUInt32 ++ e.2) ∧
        payloads.map (fun e => (e.1, .bytes e.2)) = rs

/-- Values of one kind are all made in the same way. -/
theorem exists_map_eq_of_kind {α : Type} {kind : Kind} {value : α → Value}
    (hvalue : ∀ v : Value, v.kind = kind → ∃ x, value x = v) {rs : List (Ordinal × Value)}
    (h : ∀ e ∈ rs, e.2.kind = kind) :
    ∃ xs : List (Ordinal × α), xs.map (fun x => (x.1, value x.2)) = rs := by
  induction rs with
  | nil => exact ⟨[], rfl⟩
  | cons e rs ih =>
    obtain ⟨hkind, hrest⟩ := List.forall_mem_cons.1 h
    obtain ⟨x, hx⟩ := hvalue e.2 hkind
    obtain ⟨xs, rfl⟩ := ih hrest
    exact ⟨(e.1, x) :: xs, by rw [List.map_cons, hx]⟩

/-- Records of one kind are read back from their blob. -/
theorem holds_records {kind : Kind} {rs : List (Ordinal × Value)}
    (h : ∀ e ∈ rs, e.2.kind = kind) : Holds (records rs) kind rs := by
  cases kind with
  | int =>
    have hvalue : ∀ v : Value, v.kind = .int → ∃ x, Value.int x = v
      | .int x, _ => ⟨x, rfl⟩
    obtain ⟨xs, rfl⟩ := exists_map_eq_of_kind hvalue h
    have hints : Records.ints ⟨xs.map fun e => (e.1, e.2.toUInt32)⟩ = xs := by
      rw [Records.ints, List.map_map]
      exact List.map_id xs
    refine ⟨⟨xs.map fun e => (e.1, e.2.toUInt32)⟩, Records.ofBytes_eq_ok_iff.2 ?_, by rw [hints]⟩
    rw [← Records.records_ints, hints]
  | float =>
    have hvalue : ∀ v : Value, v.kind = .float → ∃ x, Value.float x = v
      | .float x, _ => ⟨x, rfl⟩
    obtain ⟨xs, rfl⟩ := exists_map_eq_of_kind hvalue h
    exact ⟨⟨xs⟩, Records.ofBytes_eq_ok_iff.2 (Records.records_floats ⟨xs⟩), rfl⟩
  | bytes =>
    have hvalue : ∀ v : Value, v.kind = .bytes → ∃ x, Value.bytes x = v
      | .bytes x, _ => ⟨x, rfl⟩
    obtain ⟨xs, rfl⟩ := exists_map_eq_of_kind hvalue h
    exact ⟨xs, by rw [records, List.flatMap_map]; rfl, rfl⟩

end Association

/-! ## Blobs over a taxonomy in memory -/

namespace Memory

/-- Several computations in a row, each of which adds labels and reads off what stays: all that they
give can be read off the taxonomy in the end, whatever its size. -/
theorem from_mapM {α β : Type} (f : α → Ask Memory β) (lsOf : α → List Label)
    (resultOf : α → Memory → β)
    (hrun : ∀ x m, (f x).from m = (.ok (resultOf x (m.addAll (lsOf x))), m.addAll (lsOf x)))
    (hstable : ∀ x {m m' : Memory}, (∀ l ∈ lsOf x, m.Has l) → m.Extends m' →
      resultOf x m' = resultOf x m) (xs : List α) (m : Memory) :
    (xs.mapM f).from m =
      (.ok (xs.map fun x => resultOf x (m.addAll (xs.flatMap lsOf))),
        m.addAll (xs.flatMap lsOf)) := by
  induction xs generalizing m with
  | nil => rfl
  | cons x xs ih =>
    have hkept : resultOf x ((m.addAll (lsOf x)).addAll (xs.flatMap lsOf)) =
        resultOf x (m.addAll (lsOf x)) :=
      hstable x (fun l hl => has_addAll hl) (extends_addAll _ _)
    rw [List.mapM_cons, Ask.from_bind_of_ok (hrun x m), Ask.from_bind_of_ok (ih _),
      List.flatMap_cons, addAll_append, List.map_cons, hkept]
    rfl

/-- Unlike the blob of some categories, that of some associations needs no ordinals to fit. -/
theorem from_associationBlob (values : List (Label × Association.Value)) (m : Memory) :
    (taxonomy.associationBlob values).from m =
      (.ok ((m.addAll (values.map (·.1))).associationBlob values),
        m.addAll (values.map (·.1))) := by
  have hall := from_mapM
    (fun v : Label × Association.Value => do
      let ordinal ← taxonomy.addCategory v.1
      return Association.record ordinal v.2)
    (fun v => [v.1]) (fun v m => Association.record (m.ordinalOf v.1) v.2)
    (fun v m => by rw [Ask.from_bind_of_ok (from_addCategory m v.1), Ask.from_pure]; rfl)
    (fun v m m' hhas hle => by rw [hle.ordinalOf_eq (hhas v.1 List.mem_cons_self)]) values m
  rw [← List.map_eq_flatMap] at hall
  rw [Taxonomy.associationBlob, Ask.from_bind_of_ok hall, associationBlob, List.flatMap_def]
  rfl

theorem associationBlob_of_extends {m m' : Memory} {values : List (Label × Association.Value)}
    (h : ∀ l ∈ values.map (·.1), m.Has l) (hle : m.Extends m') :
    m'.associationBlob values = m.associationBlob values := by
  refine List.flatMap_congr fun v hv => ?_
  rw [hle.ordinalOf_eq (h v.1 (List.mem_map_of_mem hv))]

/-- The blobs of associations in an addition are read off the taxonomy in the end, and their labels
are there. -/
theorem areBlobs_of_resolve {store : Dimension.Store} {d : Document} {m m' : Memory}
    {added : Addition} (h : (taxonomy.resolve store d).from m = (.ok added, m')) :
    ∃ categoryBlobs associationBlobs,
      added = store.addition d categoryBlobs associationBlobs ∧
      AreBlobs (fun _ => OrdinalSet.IsBlob) (store.routeCategories d) categoryBlobs ∧
      AreBlobs (fun values blob => blob = m'.associationBlob values ∧
        ∀ v ∈ values, m'.Has v.1) (store.routeAssociations d) associationBlobs := by
  obtain ⟨sets, m₁, records, hsets, hrecords, hadded⟩ := Taxonomy.from_resolve_eq_ok_iff.1 h
  refine ⟨sets, records, hadded,
    Ask.areBlobs_of_from_blobs Taxonomy.isBlob_of_categoryBlob hsets, ?_⟩
  have hall := from_mapM
    (fun group : String × List (Label × Association.Value) => do
      let blob ← taxonomy.associationBlob group.2
      return CountingField.mk group.1 (.binary blob))
    (fun group => group.2.map (·.1))
    (fun group m => CountingField.mk group.1 (.binary (m.associationBlob group.2)))
    (fun group m => by rw [Ask.from_bind_of_ok (from_associationBlob group.2 m), Ask.from_pure])
    (fun group m m' hhas hle => by rw [associationBlob_of_extends hhas hle])
    (store.routeAssociations d) m₁
  obtain ⟨hblobs, hm'⟩ := Prod.mk.inj (hall.symm.trans hrecords)
  have hhas : ∀ group ∈ store.routeAssociations d, ∀ v ∈ group.2, m'.Has v.1 := by
    intro group hgroup v hv
    rw [← hm']
    exact has_addAll (List.mem_flatMap.2 ⟨group, hgroup, List.mem_map_of_mem hv⟩)
  rw [hm'] at hblobs
  rw [← Except.ok.inj hblobs, AreBlobs, List.forall₂_map_right_iff, List.forall₂_same]
  intro group hgroup
  exact ⟨m'.associationBlob group.2, rfl, rfl, hhas group hgroup⟩

end Memory

/-! ## Documents -/

variable {ix ix' : Indexer} {d : Document} {b : Built}

/-- The associations of an index field of a built document are of the kind that is remembered. -/
theorem Indexer.exists_kind_of_build {σ : Type} {t : Taxonomy σ} {s s' : σ}
    (hbuild : ix.build t s d = (.ok b, ix', s')) {field : String}
    (hfield : ∃ a ∈ d.associations, ix.settings.fieldOf a.1 = field) :
    ∃ kind, ix'.kinds[field]? = some kind ∧
      ∀ a ∈ d.associations.filter (fun a => ix.settings.fieldOf a.1 = field), a.2.kind = kind := by
  have hknown : ∀ a ∈ d.associations, ix'.kinds[ix.settings.fieldOf a.1]? = some a.2.kind :=
    fun a ha =>
      kinds_of_build_of_mem hbuild (Dimension.Store.mem_kindsAt_facets_iff.2 ⟨a, ha, rfl, rfl⟩)
  obtain ⟨a, ha, rfl⟩ := hfield
  refine ⟨a.2.kind, hknown a ha, fun other hother => ?_⟩
  obtain ⟨hmem, hsame⟩ := List.mem_filter.1 hother
  have hother := hknown other hmem
  rw [of_decide_eq_true hsame, hknown a ha] at hother
  exact (Option.some.inj hother).symm

/-- Over a taxonomy in memory the blob of an index field with associations has one record for each
of them, in the order of the document. -/
theorem Indexer.blobsAt_of_build_memory {m m' : Memory}
    (hbuild : ix.build Memory.taxonomy m d = (.ok b, ix', m')) {field : String}
    (hfield : ∃ a ∈ d.associations, ix.settings.fieldOf a.1 = field) :
    ∃ set? : Option Bytes,
      (set?.isSome ↔ ∃ l ∈ d.categories, ix.settings.fieldOf l = field) ∧
      b.added.blobsAt field = set?.toList ++
        [m'.associationBlob (d.associations.filter fun a => ix.settings.fieldOf a.1 = field)] ∧
      ∀ a ∈ d.associations.filter (fun a => ix.settings.fieldOf a.1 = field), m'.Has a.1 := by
  obtain ⟨kinds, memo, _, hresolve, _, _⟩ := build_eq_ok hbuild
  obtain ⟨categoryBlobs, associationBlobs, hadded, hcategories, hassociations⟩ :=
    Memory.areBlobs_of_resolve (Memory.steady.from_resolve_of_memoised hresolve)
  obtain ⟨set?, hset, hsome, _⟩ := hcategories.exists_blob? field
  obtain ⟨records?, hrecords, hsome', hblob⟩ := hassociations.exists_blob? field
  obtain ⟨blob, rfl⟩ := Option.isSome_iff_exists.1 (hsome'.2 hfield)
  obtain ⟨hvalue, hhas⟩ := hblob blob rfl
  refine ⟨set?, hsome, ?_, hhas⟩
  rw [Addition.blobsAt, hadded, Dimension.Store.addition, blobsUnder_append, blobsUnder_append,
    blobsUnder_memberFields, List.append_nil, hset, hrecords, hvalue]
  rfl

/-- Whatever settings a document is built under and whatever the taxonomy in memory was before, the
associations of each index field are read back from its blob: they are of one kind, and the blob
holds the ordinal and the value of each, in the order of the document.  And whatever blob is read as
records is what these records are written as, be it as integers or as single-precision numbers. -/
theorem Association.read_back_of_build :
    (∀ {ix ix' : Indexer} {m m' : Memory} {d : Document} {b : Built},
      ix.build Memory.taxonomy m d = (.ok b, ix', m') → ∀ field,
      (∃ a ∈ d.associations, ix.settings.fieldOf a.1 = field) →
      let routed := d.associations.filter fun a => ix.settings.fieldOf a.1 = field
      ∃ (set? : Option Bytes) (blob : Bytes) (kind : Kind) (rs : List (Ordinal × Value)),
        (set?.isSome ↔ ∃ l ∈ d.categories, ix.settings.fieldOf l = field) ∧
        b.added.blobsAt field = set?.toList ++ [blob] ∧
        ix'.kinds[field]? = some kind ∧ (∀ a ∈ routed, a.2.kind = kind) ∧
        rs.map (fun e => (some e.1, e.2)) = routed.map (fun a => (m'.ordinal? a.1, a.2)) ∧
        Holds blob kind rs) ∧
    ∀ blob r, Records.ofBytes blob = .ok r →
      records (r.ints.map fun e => (e.1, .int e.2)) = blob ∧
      records (r.floats.map fun e => (e.1, .float e.2)) = blob := by
  constructor
  · intro ix ix' m m' d b hbuild field hfield routed
    obtain ⟨set?, hset, hblobs, hhas⟩ := Indexer.blobsAt_of_build_memory hbuild hfield
    obtain ⟨kind, hknown, hkind⟩ := Indexer.exists_kind_of_build hbuild hfield
    refine ⟨set?, m'.associationBlob routed, kind,
      routed.map fun a => (m'.ordinalOf a.1, a.2), hset, hblobs, hknown, hkind, ?_, ?_⟩
    · rw [List.map_map]
      refine List.map_congr_left fun a ha => ?_
      rw [Memory.ordinal?_eq_some_iff.2 ⟨hhas a ha, rfl⟩]
      rfl
    · have hrecords : records (routed.map fun a => (m'.ordinalOf a.1, a.2)) =
          m'.associationBlob routed := List.flatMap_map ..
      rw [← hrecords]
      refine holds_records fun e he => ?_
      obtain ⟨a, ha, rfl⟩ := List.mem_map.1 he
      exact hkind a ha
  · intro blob r hread
    have hblob := Records.ofBytes_eq_ok_iff.1 hread
    exact ⟨r.records_ints.trans hblob.symm, r.records_floats.trans hblob.symm⟩

/-- A document with two scores under one label: a not-a-number with a payload, and negative zero. -/
def scoredDocument : Document where
  indexable := [
    .facet (.association ⟨"Score", ["mean"], by decide, by decide⟩ (.float 0x7fc00001) (by decide)),
    .facet (.association ⟨"Score", ["mean"], by decide, by decide⟩ (.float 0x80000000) (by decide))]

theorem Association.read_back_of_build_scoredDocument :
    ∃ b ix' m', Indexer.build {} Memory.taxonomy {} scoredDocument = (.ok b, ix', m') ∧
      ∃ blob r, b.added.blobsAt "$facets" = [blob] ∧ Records.ofBytes blob = .ok r ∧
        r.floats = [(2, 0x7fc00001), (2, 0x80000000)] := by
  obtain ⟨_, hbuild⟩ := Indexer.exists_build_memory {} {} scoredDocument ⟨_, rfl⟩
    (by decide +kernel)
  refine ⟨_, _, _, hbuild, ?_⟩
  obtain ⟨set?, blob, kind, rs, hset, hblobs, _, hkind, hrs, hholds⟩ :=
    Association.read_back_of_build.1 hbuild "$facets" ⟨_, List.mem_cons_self, rfl⟩
  have hnone : set? = none := by
    rw [← Option.not_isSome_iff_eq_none, hset]
    rintro ⟨l, hl, _⟩
    cases hl
  have hfloat : Association.Kind.float = kind := hkind _ List.mem_cons_self
  subst hnone hfloat
  obtain ⟨r, hread, rfl⟩ := hholds
  refine ⟨blob, r, hblobs, hread, ?_⟩
  -- A record is determined by its ordinal and its value.
  let pair (e : Ordinal × Single) : Option Ordinal × Association.Value := (some e.1, .float e.2)
  have hpair : Function.Injective pair := by
    rintro ⟨o, x⟩ ⟨p, y⟩ h
    cases h
    rfl
  have hread : r.floats.map pair = [(2, 0x7fc00001), (2, 0x80000000)].map pair := by
    rw [List.map_map] at hrs
    exact hrs.trans (by decide +kernel)
  exact List.map_injective_iff.2 hpair hread

end FacetIndex
