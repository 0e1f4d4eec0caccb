/-
  Proofs/Streams.lean --- the streams of a built document.

  WHAT THIS FILE IS FOR.  A built document shows what its source has that is no
  facet, and behind it what the facets were resolved into: kind by kind, and
  within a kind field by field, the fields in the order of their bytes.  What goes
  to a field stands there in the order of the document.  So the facets of a kind
  are sorted by their field, and nothing else happens to them.

  WHAT IS PROVED.

      Routing.targets_names, Routing.Targets.eq_names
          taking what goes to each of the fields in turn takes every facet once,
          and there is one list of fields like that
      build_translates_once
          both streams of a built document, entry by entry.  The terms and the
          values of members are given as they are.  A blob is given by what is
          read back from it: a set holds the ordinals that stand for the
          categories of its field (`HoldsSet`), and a blob of records holds each
          association of its field with the ordinal of its label
          (`HoldsRecords`).  The ordinals are those that the taxonomy answered in
          this build, to questions of which none was asked twice.

  WHAT IS NOT SAID.  Byte strings have no length in their records, so that reading
  them back takes an application that knows where they end; `Association.Holds`
  says what it then finds.  Two blobs may stand under one name, and a reader of
  that field cannot tell which is which: see `Proofs/Blobs.lean`.
-/
import FacetIndex.Proofs.AssociationRecords
import FacetIndex.Proofs.ByteOrder
import FacetIndex.Proofs.OrdinalWords
import FacetIndex.Proofs.Path
import FacetIndex.Proofs.Transcript
import FacetIndex.Text.Lines

set_option autoImplicit false

namespace FacetIndex

/-! ## Fields -/

namespace Routing

variable {α : Type}

/-- The fields that something goes to, in the order of their bytes. -/
structure Targets (route : α → String) (xs : List α) (fields : List String) : Prop where
  /-- The fields ascend, byte by byte. -/
  ascend : fields.Pairwise fun a b => bytesOf a < bytesOf b
  /-- These are the fields that something goes to. -/
  mem_iff : ∀ field, field ∈ fields ↔ ∃ x ∈ xs, route x = field
  /-- What goes to one field after the other is everything, each under its own field and once. -/
  once : (fields.flatMap fun field => (xs.filter (route · = field)).map (field, ·)).Perm
    (xs.map fun x => (route x, x))

/-- Taking what goes to each of some fields takes everything once. -/
theorem flatMap_filter_perm (route : α → String) {fields : List String} (hnodup : fields.Nodup) :
    ∀ {xs : List α}, (∀ x ∈ xs, route x ∈ fields) →
      (fields.flatMap fun field => xs.filter (route · = field)).Perm xs := by
  induction fields with
  | nil =>
    intro xs h
    rw [List.eq_nil_iff_forall_not_mem.2 fun x hx => List.not_mem_nil (h x hx)]
    exact .nil
  | cons field fields ih =>
    intro xs h
    obtain ⟨hfresh, hnodup⟩ := List.nodup_cons.1 hnodup
    -- What goes to the other fields does not go to the first one.
    have hothers : (fields.flatMap fun other => xs.filter (route · = other)) =
        fields.flatMap fun other =>
          (xs.filter fun x => !decide (route x = field)).filter (route · = other) := by
      refine List.flatMap_congr fun other hother => ?_
      rw [List.filter_filter]
      refine List.filter_congr fun x _ => ?_
      by_cases hx : route x = other
      · have hne : route x ≠ field := fun heq => hfresh (heq.symm.trans hx ▸ hother)
        simp [hx, hx ▸ hne]
      · simp [hx]
    have hfields : ∀ x ∈ xs.filter fun x => !decide (route x = field), route x ∈ fields := by
      intro x hx
      obtain ⟨hx, hne⟩ := List.mem_filter.1 hx
      refine (List.mem_cons.1 (h x hx)).resolve_left fun heq => ?_
      rw [decide_eq_true heq] at hne
      cases hne
    rw [List.flatMap_cons, hothers]
    exact ((ih hnodup hfields).append_left _).trans (List.filter_append_perm _ xs)

theorem targets_names (route : α → String) (xs : List α) :
    Targets route xs (names (xs.map route)) where
  ascend := (pairwise_names _).imp fun h => (lt_iff_bytesOf_lt _ _).1 h
  mem_iff field := mem_names.trans List.mem_map
  once := by
    have htake : ∀ field, (xs.filter (route · = field)).map (field, ·) =
        (xs.filter (route · = field)).map fun x => (route x, x) := fun field =>
      List.map_congr_left fun x hx => by rw [of_decide_eq_true (List.mem_filter.1 hx).2]
    simp only [htake]
    rw [← List.map_flatMap]
    exact (flatMap_filter_perm route (nodup_names _) fun x hx =>
      mem_names.2 (List.mem_map_of_mem hx)).map _

/-- Only one list of fields is like that. -/
theorem Targets.eq_names {route : α → String} {xs : List α} {fields : List String}
    (h : Targets route xs fields) : fields = names (xs.map route) := by
  have hascend : fields.Pairwise (· < ·) := h.ascend.imp fun hlt => (lt_iff_bytesOf_lt _ _).2 hlt
  refine hascend.eq_of_mem_iff (pairwise_names _) fun field => ?_
  rw [h.mem_iff, mem_names, List.mem_map]

end Routing

/-! ## The source -/

namespace Document

/-- The text fields are the items that are no facets. -/
theorem map_texts (d : Document) : d.texts.map Item.text = d.indexable.filter (!·.isFacet) := by
  unfold texts
  induction d.indexable with
  | nil => rfl
  | cons item items ih =>
    cases item with
    | text field => simpa [Item.isFacet] using ih
    | facet f => simpa [Item.isFacet] using ih

/-- Every facet is of one of the three kinds. -/
theorem length_facets (d : Document) :
    d.categories.length + d.members.length + d.associations.length = d.facets.length := by
  unfold categories members associations
  induction d.facets with
  | nil => rfl
  | cons f fs ih =>
    cases f <;> simp only [List.filterMap_cons, List.length_cons] <;> omega

end Document

/-! ## What is added -/

theorem Lines.text?_bytesOf (text : String) : text? (bytesOf text) = some text :=
  dif_pos text.isValidUTF8

/-- The bytes that stand for a member are text, and the text is its full path. -/
theorem exists_text?_memberPath (m : String × String) :
    ∃ text, Lines.text? (bytesOf (memberPath m)) = some text ∧ Path.decode text = .ok [m.1, m.2] :=
  ⟨_, Lines.text?_bytesOf _, Path.decode_encode (List.cons_ne_nil _ _)⟩

/-- The terms of a label are the stored forms of its first components, as many as there are. -/
theorem Label.ladder_eq (l : Label) :
    l.ladder = (List.range' 1 l.length).map fun len => Path.encode (l.components.take len) := by
  rw [ladder, List.range'_eq_map_range, List.map_map]
  exact List.map_congr_left fun n _ => by rw [Function.comp_apply, Nat.add_comm]

namespace Dimension.Store

variable (store : Store) (d : Document)

/-- The index field a member goes to. -/
def memberFieldOf (m : String × String) : String := (store.get m.1).indexField

/-- The terms that are added, field by field. -/
theorem terms_eq :
    store.terms d =
      ((Routing.names (d.categories.map store.fieldOf)).flatMap fun field =>
        (d.categories.filter (store.fieldOf · = field)).flatMap fun l =>
          (List.range' 1 l.length).map fun len => ⟨field, Path.encode (l.components.take len)⟩) ++
      (Routing.names (d.members.map store.memberFieldOf)).flatMap fun field =>
        (d.members.filter (store.memberFieldOf · = field)).flatMap fun m =>
          [⟨field, Path.encode [m.1, m.2]⟩, ⟨field, m.1⟩] := by
  simp only [terms, routeCategories, routeMembers, Routing.byField, List.flatMap_map, categoryTerms,
    Label.ladder_eq, List.map_map, Function.comp_def]
  rfl

/-- The values that are added for members, field by field. -/
theorem memberFields_eq :
    store.memberFields d =
      ((Routing.names (d.members.map store.memberFieldOf)).flatMap fun field =>
        (d.members.filter (store.memberFieldOf · = field)).map (field, ·)).map fun target =>
          ⟨target.1, .sortedSet (bytesOf (memberPath target.2))⟩ := by
  simp only [memberFields, routeMembers, Routing.byField, List.flatMap_map, memberValues,
    List.map_flatMap, List.map_map, Function.comp_def]
  rfl

end Dimension.Store

/-- Blobs of what goes to the fields are blobs of the fields. -/
theorem AreBlobs.forall₂_names {α : Type} {IsBlob : List α → Bytes → Prop} {route : α → String}
    {xs : List α} {blobs : List CountingField}
    (h : AreBlobs IsBlob (Routing.byField route xs) blobs) :
    List.Forall₂ (fun field f => ∃ blob, f = ⟨field, .binary blob⟩ ∧
      IsBlob (xs.filter (route · = field)) blob) (Routing.names (xs.map route)) blobs :=
  List.forall₂_map_left_iff.1 h

/-! ## What the blobs hold -/

variable {σ : Type} {Answers : Question → Ordinal → Prop}

/-- The blob is the set of the ordinals that stand for some categories: read back, it has these and
no others, each once and in ascending order. -/
def HoldsSet (Answers : Question → Ordinal → Prop) (store : Dimension.Store) (labels : List Label)
    (blob : Bytes) : Prop :=
  ∃ (oss : List (List Ordinal)) (ordinals : List Ordinal),
    List.Forall₂ (fun l os => StandFor Answers (store.get l.dimension) l os) labels oss ∧
    OrdinalSet.encode oss.flatten = .ok blob ∧ OrdinalSet.decode blob = .ok ordinals ∧
    ordinals.Pairwise (· < ·) ∧ ∀ o, o ∈ ordinals ↔ ∃ os ∈ oss, o ∈ os

/-- The blob has a record for each of some associations, in their order: read back as records of the
kind, it has the ordinal of the label and the value of each. -/
def HoldsRecords (Answers : Question → Ordinal → Prop) (kind : Association.Kind)
    (values : List (Label × Association.Value)) (blob : Bytes) : Prop :=
  ∃ rs : List (Ordinal × Association.Value),
    List.Forall₂ (fun a r => Answers (.category a.1) r.1 ∧ r.2 = a.2) values rs ∧
    Association.Holds blob kind rs

theorem holdsSet_of_gives {store : Dimension.Store} {labels : List Label} {blob : Bytes}
    (h : (Dialogue.categoryBlob store labels).Gives Answers blob) :
    HoldsSet Answers store labels blob := by
  obtain ⟨oss, hencode, hoss⟩ := h.exists_of_categoryBlob
  refine ⟨oss, OrdinalSet.distinct oss.flatten, hoss, hencode, OrdinalSet.decode_of_encode hencode,
    OrdinalSet.pairwise_distinct _, fun o => ?_⟩
  rw [OrdinalSet.mem_distinct, List.mem_flatten]

theorem holdsRecords_of_gives {kind : Association.Kind}
    {values : List (Label × Association.Value)} {blob : Bytes}
    (h : (Dialogue.associationBlob values).Gives Answers blob)
    (hkind : ∀ a ∈ values, a.2.kind = kind) : HoldsRecords Answers kind values blob := by
  obtain ⟨rs, rfl, hrs⟩ := h.exists_of_associationBlob
  have hvalues : rs.map (·.2) = values.map (·.2) := by
    rw [eq_comm, ← List.forall₂_eq_eq_eq, List.forall₂_map_left_iff, List.forall₂_map_right_iff]
    exact hrs.imp fun _ _ hr => hr.2.symm
  refine ⟨rs, hrs, Association.holds_records fun r hr => ?_⟩
  obtain ⟨a, ha, hvalue⟩ := List.mem_map.1 (hvalues ▸ List.mem_map_of_mem hr)
  rw [← hvalue]
  exact hkind a ha

/-! ## The streams -/

/-- The streams of a built document, of which every facet is a category, a member or an association.
What is indexed is the source without its facets, then for each field with categories the first
components of each category, as many as there are, and then for each field with members the two
terms of each member.  What is stored is what the source has stored, then an ordinal set for each
field with categories, a value for each member, which reads back as the member, and a blob of
records for each field with associations.  A set holds the ordinals that stand for the categories of
its field, and the records hold the values that go to theirs, each with the ordinal of its label, as
the taxonomy answered when it was asked for them in this build, once for each. -/
theorem build_translates_once {ix ix' : Indexer} {t : Taxonomy σ} {s s' : σ}
    {d : Document} {b : Built} (hbuild : ix.build t s d = (.ok b, ix', s')) :
    d.categories.length + d.members.length + d.associations.length = d.facets.length ∧
    d.texts.map Item.text = d.indexable.filter (!·.isFacet) ∧
    ∃ categoryFields memberFields associationFields : List String,
      Routing.Targets ix.settings.fieldOf d.categories categoryFields ∧
      Routing.Targets ix.settings.memberFieldOf d.members memberFields ∧
      Routing.Targets (fun a => ix.settings.fieldOf a.1) d.associations associationFields ∧
      b.indexed = d.texts ++
        ((categoryFields.flatMap fun field =>
          (d.categories.filter (ix.settings.fieldOf · = field)).flatMap fun l =>
            (List.range' 1 l.length).map fun len =>
              ⟨field, Path.encode (l.components.take len)⟩) ++
        memberFields.flatMap fun field =>
          (d.members.filter (ix.settings.memberFieldOf · = field)).flatMap fun m =>
            [⟨field, Path.encode [m.1, m.2]⟩, ⟨field, m.1⟩]) ∧
      ∃ (calls : List Exchange) (sets values records : List CountingField),
        ix.build t.recording (s, []) d = (.ok b, ix', s', calls) ∧
        (calls.map (·.question)).Nodup ∧
        b.stored = d.stored ++
          (sets ++ values ++ records).map (fun f => ⟨f.name, .docValues f.value⟩) ∧
        List.Forall₂ (fun field f => ∃ blob, f = ⟨field, .binary blob⟩ ∧
            HoldsSet (Exchange.Answers calls) ix.settings
              (d.categories.filter (ix.settings.fieldOf · = field)) blob)
          categoryFields sets ∧
        List.Forall₂ (fun target f => ∃ bytes text, f = ⟨target.1, .sortedSet bytes⟩ ∧
            Lines.text? bytes = some text ∧ Path.decode text = .ok [target.2.1, target.2.2])
          (memberFields.flatMap fun field =>
            (d.members.filter (ix.settings.memberFieldOf · = field)).map (field, ·)) values ∧
        List.Forall₂ (fun field f => ∃ blob kind, f = ⟨field, .binary blob⟩ ∧
            ix'.kinds[field]? = some kind ∧
            HoldsRecords (Exchange.Answers calls) kind
              (d.associations.filter fun a => ix.settings.fieldOf a.1 = field) blob)
          associationFields records := by
  obtain ⟨_, _, _, _, rfl, _⟩ := Indexer.build_eq_ok hbuild
  obtain ⟨calls, hrecorded, hnodup, hgives⟩ := Indexer.exists_transcript_of_build hbuild
  obtain ⟨sets, records, hadded, hsets, hrecords⟩ := Dialogue.gives_resolve_iff.1 hgives
  refine ⟨b.source.length_facets, b.source.map_texts, _, _, _, Routing.targets_names _ _,
    Routing.targets_names _ _, Routing.targets_names _ _, ?_, calls, sets,
    ix.settings.memberFields b.source, records, hrecorded, hnodup, ?_, ?_, ?_, ?_⟩
  · rw [Built.indexed, hadded, Dimension.Store.addition, Dimension.Store.terms_eq]
  · rw [Built.stored, hadded]
    rfl
  · refine hsets.forall₂_names.imp ?_
    rintro field f ⟨blob, hf, hblob⟩
    exact ⟨blob, hf, holdsSet_of_gives hblob⟩
  · rw [Dimension.Store.memberFields_eq, List.forall₂_map_right_iff]
    refine List.forall₂_same.2 fun target _ => ?_
    obtain ⟨text, hbytes, hread⟩ := exists_text?_memberPath target.2
    exact ⟨_, text, rfl, hbytes, hread⟩
  · have hblobs := (List.forall₂_and_left _ _).2
      ⟨fun field hfield => Indexer.exists_kind_of_build hbuild
        (List.mem_map.1 (Routing.mem_names.1 hfield)), hrecords.forall₂_names⟩
    refine hblobs.imp ?_
    rintro field f ⟨⟨kind, hknown, hkind⟩, blob, hf, hblob⟩
    exact ⟨blob, kind, hf, hknown, holdsRecords_of_gives hblob hkind⟩

/-- Joints and woods go to fields of their own, and the work of a maker to that of the woods. -/
def benchStore : Dimension.Store :=
  ((Dimension.Store.change {} "Joint" (.all ⟨false, true, false, "ø"⟩)).change
    "Wood" (.all ⟨true, true, false, "z"⟩)).change "Maker" (.all ⟨false, false, false, "z"⟩)

/-- Beech is a wood for benches. -/
def beech : Label := ⟨"Wood", ["Beech"], by decide, by decide⟩

/-- Oak from the Harz, too. -/
def harzOak : Label := ⟨"Wood", ["Oak", "Harz"], by decide, by decide⟩

/-- A joint with dowels. -/
def dowelled : Label := ⟨"Joint", ["Dowel"], by decide, by decide⟩

/-- A bench of two woods, one of them with its origin, that was oiled three times. -/
def benchDocument : Document where
  indexable := [
    .facet (.category dowelled (by decide)),
    .facet (.association ⟨"Varnish", ["Oil"], by decide, by decide⟩ (.int 3) (by decide)),
    .facet (.category beech (by decide)),
    .text ⟨"title", "bench"⟩,
    .facet (.member "Maker" "Ines" (by decide) (by decide)),
    .facet (.category harzOak (by decide))]
  stored := [⟨"price", .int 240⟩]

/-- The woods stand before the joint, since their field does, and their ordinals are smaller.  Oil
has the largest one. -/
theorem build_translates_once_bench :
    ∃ b ix' m', Indexer.build ⟨benchStore, ∅⟩ Memory.taxonomy {} benchDocument = (.ok b, ix', m') ∧
      b.indexed = [
        ⟨"title", "bench"⟩, ⟨"z", "Wood"⟩, ⟨"z", "Wood\x1fBeech"⟩, ⟨"z", "Wood"⟩,
        ⟨"z", "Wood\x1fOak"⟩, ⟨"z", "Wood\x1fOak\x1fHarz"⟩, ⟨"ø", "Joint"⟩,
        ⟨"ø", "Joint\x1fDowel"⟩, ⟨"z", "Maker\x1fInes"⟩, ⟨"z", "Maker"⟩] ∧
      b.stored = [
        ⟨"price", .int 240⟩, ⟨"z", .docValues (.binary [2, 1, 1])⟩,
        ⟨"ø", .docValues (.binary [6])⟩,
        ⟨"z", .docValues (.sortedSet (bytesOf "Maker\x1fInes"))⟩,
        ⟨"$facets", .docValues (.binary [0, 0, 0, 8, 0, 0, 0, 3])⟩] := by
  let m : Memory := Memory.addAll {} (benchStore.asked benchDocument)
  obtain ⟨_, hbuild⟩ := Indexer.exists_build_memory ⟨benchStore, ∅⟩ {} benchDocument ⟨_, rfl⟩
    (by decide +kernel)
  obtain ⟨_, _, _, _, _, hcategories, hmembers, _, hindexed, _⟩ := build_translates_once hbuild
  refine ⟨_, _, _, hbuild, ?_, ?_⟩
  · rw [hindexed, hcategories.eq_names, hmembers.eq_names]
    decide +kernel
  · have hroutes : benchStore.routeCategories benchDocument =
        [("z", [beech, harzOak]), ("ø", [dowelled])] := by decide +kernel
    have hwoods : m.categoryBlob benchStore [beech, harzOak] = [2, 1, 1] := by
      have hordinals : (benchStore.counted [beech, harzOak]).map m.ordinalOf = [2, 4, 3] := by
        decide +kernel
      rw [Memory.categoryBlob, hordinals]
      cbv
    have hjoints : m.categoryBlob benchStore [dowelled] = [6] := by
      have hordinals : (benchStore.counted [dowelled]).map m.ordinalOf = [6] := by
        decide +kernel
      rw [Memory.categoryBlob, hordinals]
      cbv
    have hsets : ((benchStore.routeCategories benchDocument).map fun group =>
          CountingField.mk group.1 (.binary (m.categoryBlob benchStore group.2))) =
        [⟨"z", .binary [2, 1, 1]⟩, ⟨"ø", .binary [6]⟩] := by
      rw [hroutes, List.map_cons, List.map_singleton, hwoods, hjoints]
    rw [Built.stored, Memory.addition, Dimension.Store.addition, hsets]
    decide +kernel

end FacetIndex
