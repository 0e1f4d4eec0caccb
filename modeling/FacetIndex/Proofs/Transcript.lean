/-
  Proofs/Transcript.lean --- an addition is what the answers make of it.

  WHAT THIS FILE IS FOR.  The calls of a build are its transcript: the questions
  that reached the taxonomy, each with its answer.  A reader who has the settings,
  the document and the transcript can write down everything that the build adds,
  without a taxonomy and without a memo.  `Dialogue.Gives` says what a dialogue
  comes to when its questions are answered in a certain way, and it is taken apart
  here as the dialogue of a document is put together: the way up from an ordinal
  (`Climbs`), the ordinals that stand for a category (`StandFor`), the sets of the
  fields with categories, and the records of the fields with associations.

  WHAT IS PROVED.

      Dialogue.Course.gives
          a dialogue that ends well behind an empty memo comes to what its own
          calls make of it
      Dialogue.gives_resolve_iff
          what a document comes to: a blob of the categories of each field, a
          blob of the associations of each field, and nothing else that depends
          on an answer
      Indexer.exists_transcript_of_build
          what a built document adds is what the transcript of its build makes
          of the document, and no question is in the transcript twice

  WHAT IS NOT SAID.  The answers are not judged.  Whether the ordinals are those
  of a sensible taxonomy, and whether another build would be given the same ones,
  is said in `Proofs/Resolution.lean` and `Proofs/Numbering.lean` for taxonomies
  in memory.
-/
import FacetIndex.Proofs.AskingOnce

set_option autoImplicit false

namespace FacetIndex

variable {σ α β : Type}

/-- An ordinal that was answered among these exchanges. -/
def Exchange.Answers (calls : List Exchange) (q : Question) (o : Ordinal) : Prop :=
  ⟨q, .ok o⟩ ∈ calls

/-- An ordinal that the taxonomy answers in some state. -/
def Taxonomy.Answers (t : Taxonomy σ) (q : Question) (o : Ordinal) : Prop :=
  ∃ s s', (t.ask q).from s = (.ok o, s')

/-! ## What a dialogue comes to -/

namespace Dialogue

/-- With answers like these the dialogue comes to this result. -/
def Gives (Answers : Question → Ordinal → Prop) : Dialogue α → α → Prop
  | done (.ok x), y => x = y
  | done (.error _), _ => False
  | ask q next, y => ∃ o, Answers q o ∧ (next o).Gives Answers y

variable {Answers : Question → Ordinal → Prop}

theorem Gives.mono {Answers' : Question → Ordinal → Prop} {c : Dialogue α} {x : α}
    (h : c.Gives Answers x) (hle : ∀ q o, Answers q o → Answers' q o) : c.Gives Answers' x := by
  induction c with
  | done result =>
    cases result with
    | ok y => exact h
    | error e => exact h.elim
  | ask q next ih =>
    obtain ⟨o, ho, hrest⟩ := h
    exact ⟨o, hle q o ho, ih o hrest⟩

theorem gives_bind_iff {c : Dialogue α} {f : α → Dialogue β} {y : β} :
    (c.bind f).Gives Answers y ↔ ∃ x, c.Gives Answers x ∧ (f x).Gives Answers y := by
  induction c with
  | done result =>
    cases result with
    | ok x =>
      constructor
      · exact fun h => ⟨x, rfl, h⟩
      · rintro ⟨_, rfl, h⟩
        exact h
    | error e => exact ⟨False.elim, fun ⟨_, h, _⟩ => h.elim⟩
  | ask q next ih =>
    constructor
    · rintro ⟨o, ho, h⟩
      obtain ⟨x, hx, hy⟩ := (ih o).1 h
      exact ⟨x, ⟨o, ho, hx⟩, hy⟩
    · rintro ⟨x, ⟨o, ho, hx⟩, hy⟩
      exact ⟨o, ho, (ih o).2 ⟨x, hx, hy⟩⟩

theorem gives_each_iff {f : α → Dialogue β} {xs : List α} {ys : List β} :
    (each f xs).Gives Answers ys ↔ List.Forall₂ (fun x y => (f x).Gives Answers y) xs ys := by
  induction xs generalizing ys with
  | nil =>
    rw [List.forall₂_nil_left_iff]
    exact eq_comm
  | cons x xs ih =>
    rw [each, gives_bind_iff, List.forall₂_cons_left_iff]
    refine exists_congr fun y => ?_
    rw [gives_bind_iff]
    constructor
    · rintro ⟨hy, ys', hys', rfl⟩
      exact ⟨ys', hy, ih.1 hys', rfl⟩
    · rintro ⟨ys', hy, hys', rfl⟩
      exact ⟨hy, ys', ih.2 hys', rfl⟩

/-- What is remembered and what is called make the result. -/
theorem Course.gives_of_eq_ok {t : Taxonomy σ} {c : Dialogue α} {s s' : σ} {memo memo' : Memo}
    {calls : List Exchange} {result : Except Error α}
    (h : Course t c s memo calls result s' memo') {x : α} (hx : result = .ok x) :
    c.Gives (fun q o => memo.find? q = some o ∨ Exchange.Answers calls q o) x := by
  induction h with
  | done result s memo =>
    subst hx
    rfl
  | known hfind rest ih => exact ⟨_, Or.inl hfind, ih hx⟩
  | @answered q next s s₁ s' memo memo' o calls result hfind hask rest ih =>
    refine ⟨o, Or.inr List.mem_cons_self, (ih hx).mono fun p r hp => ?_⟩
    rcases hp with hp | hp
    · obtain ⟨rfl, rfl⟩ | hp := Memo.eq_or_find?_of_learn hp
      · exact Or.inr List.mem_cons_self
      · exact Or.inl hp
    · exact Or.inr (List.mem_cons_of_mem _ hp)
  | failed hfind hask => cases hx

/-- Where nothing is remembered at the start, the calls alone make it. -/
theorem Course.gives {t : Taxonomy σ} {c : Dialogue α} {s s' : σ} {memo : Memo}
    {calls : List Exchange} {x : α} (h : Course t c s {} calls (.ok x) s' memo) :
    c.Gives (Exchange.Answers calls) x :=
  (h.gives_of_eq_ok rfl).mono fun q o ho => ho.resolve_left (Memo.find?_empty_ne_some q o)

end Dialogue

/-! ## The ordinals of a category -/

/-- The ordinals on the way from an ordinal to the root, the nearest first. -/
inductive Climbs (Answers : Question → Ordinal → Prop) : Ordinal → List Ordinal → Prop where
  /-- The parent is no category. -/
  | top {o parent : Ordinal} (answer : Answers (.parent o) parent) (hroot : ¬ 0 < parent) :
      Climbs Answers o []
  /-- The parent is the next one on the way. -/
  | up {o parent : Ordinal} {above : List Ordinal} (answer : Answers (.parent o) parent)
      (hpos : 0 < parent) (rest : Climbs Answers parent above) :
      Climbs Answers o (parent :: above)

/-- The ordinals that stand for a category: the one that it was given, and if ancestors are stored,
those on the way to the root that are stored with it. -/
def StandFor (Answers : Question → Ordinal → Prop) (settings : Dimension.Settings) (label : Label)
    (ordinals : List Ordinal) : Prop :=
  ∃ o above, Answers (.category label) o ∧
    (settings.storesAncestors = true → Climbs Answers o above) ∧
    ordinals = o :: settings.kept above

namespace Dialogue

variable {Answers : Question → Ordinal → Prop}

theorem Gives.climbs {steps : Nat} {o : Ordinal} {above : List Ordinal}
    (h : (ancestors steps o).Gives Answers above) : Climbs Answers o above := by
  induction steps generalizing o above with
  | zero => exact h.elim
  | succ steps ih =>
    obtain ⟨parent, hparent, h⟩ := h
    dsimp only at h
    split at h
    · rename_i hpos
      obtain ⟨further, hfurther, rfl⟩ := gives_bind_iff.1 h
      exact .up hparent hpos (ih hfurther)
    · rename_i hroot
      cases h
      exact .top hparent hroot

theorem Gives.standFor {settings : Dimension.Settings} {label : Label} {ordinals : List Ordinal}
    (h : (ordinalsOf settings label).Gives Answers ordinals) :
    StandFor Answers settings label ordinals := by
  obtain ⟨o, ho, h⟩ := h
  dsimp only at h
  split at h
  · rename_i hstores
    obtain ⟨above, habove, rfl⟩ := gives_bind_iff.1 h
    refine ⟨o, above, ho, fun _ => habove.climbs, ?_⟩
    rw [Dimension.Settings.kept, if_pos hstores]
  · rename_i hstores
    cases h
    refine ⟨o, [], ho, fun hstores' => absurd hstores' hstores, ?_⟩
    rw [Dimension.Settings.kept, if_neg hstores]

/-! ## The blobs of a document -/

/-- The blob of some categories is the set of the ordinals that stand for them. -/
theorem Gives.exists_of_categoryBlob {store : Dimension.Store} {labels : List Label} {blob : Bytes}
    (h : (categoryBlob store labels).Gives Answers blob) :
    ∃ oss : List (List Ordinal), OrdinalSet.encode oss.flatten = .ok blob ∧
      List.Forall₂ (fun l os => StandFor Answers (store.get l.dimension) l os) labels oss := by
  obtain ⟨oss, hoss, h⟩ := gives_bind_iff.1 h
  refine ⟨oss, ?_, (gives_each_iff.1 hoss).imp fun _ _ h => h.standFor⟩
  cases hencode : OrdinalSet.encode oss.flatten with
  | ok encoded =>
    rw [hencode] at h
    exact congrArg Except.ok h
  | error e =>
    rw [hencode] at h
    exact h.elim

/-- The blob of some associations is made of records, with the ordinals of their labels. -/
theorem Gives.exists_of_associationBlob {values : List (Label × Association.Value)} {blob : Bytes}
    (h : (associationBlob values).Gives Answers blob) :
    ∃ rs : List (Ordinal × Association.Value), blob = Association.records rs ∧
      List.Forall₂ (fun a r => Answers (.category a.1) r.1 ∧ r.2 = a.2) values rs := by
  rw [associationBlob, gives_bind_iff] at h
  obtain ⟨parts, hparts, rfl⟩ := h
  rw [gives_each_iff] at hparts
  induction hparts with
  | nil => exact ⟨[], rfl, .nil⟩
  | @cons a part values parts hone _ ih =>
    obtain ⟨o, ho, rfl⟩ := hone
    obtain ⟨rs, hblob, hrs⟩ := ih
    refine ⟨(o, a.2) :: rs, ?_, .cons ⟨ho, rfl⟩ hrs⟩
    rw [List.flatten_cons, hblob]
    rfl

theorem gives_blobs_iff {blob : List α → Dialogue Bytes} {groups : List (String × List α)}
    {fields : List CountingField} :
    (blobs blob groups).Gives Answers fields ↔
      AreBlobs (fun xs b => (blob xs).Gives Answers b) groups fields := by
  rw [blobs, gives_each_iff, AreBlobs]
  have hone : ∀ (group : String × List α) (field : CountingField),
      ((blob group.2).bind fun b => done (.ok ⟨group.1, .binary b⟩)).Gives Answers field ↔
        ∃ b, field = ⟨group.1, .binary b⟩ ∧ (blob group.2).Gives Answers b := by
    intro group field
    rw [gives_bind_iff]
    exact exists_congr fun b => ⟨fun h => ⟨h.2.symm, h.1⟩, fun h => ⟨h.2, h.1.symm⟩⟩
  simp only [hone]

/-- What a document comes to: a blob of the categories of each field, one of the associations of
each field, and what does not depend on answers. -/
theorem gives_resolve_iff {store : Dimension.Store} {d : Document} {added : Addition} :
    (resolve store d).Gives Answers added ↔
      ∃ sets records, added = store.addition d sets records ∧
        AreBlobs (fun labels blob => (categoryBlob store labels).Gives Answers blob)
          (store.routeCategories d) sets ∧
        AreBlobs (fun values blob => (associationBlob values).Gives Answers blob)
          (store.routeAssociations d) records := by
  rw [resolve, gives_bind_iff]
  refine exists_congr fun sets => ?_
  rw [gives_blobs_iff]
  constructor
  · rintro ⟨hsets, h⟩
    obtain ⟨records, hrecords, rfl⟩ := gives_bind_iff.1 h
    exact ⟨records, rfl, hsets, gives_blobs_iff.1 hrecords⟩
  · rintro ⟨records, rfl, hsets, hrecords⟩
    exact ⟨hsets, gives_bind_iff.2 ⟨records, gives_blobs_iff.2 hrecords, rfl⟩⟩

end Dialogue

/-! ## Builds -/

/-- What a built document adds is what the calls of its build make of it, and no two of the calls
ask the same question. -/
theorem Indexer.exists_transcript_of_build {ix ix' : Indexer} {t : Taxonomy σ} {s s' : σ}
    {d : Document} {b : Built} (h : ix.build t s d = (.ok b, ix', s')) :
    ∃ calls, ix.build t.recording (s, []) d = (.ok b, ix', s', calls) ∧
      (calls.map (·.question)).Nodup ∧
      (Dialogue.resolve ix.settings d).Gives (Exchange.Answers calls) b.added := by
  obtain ⟨kinds, _, hexamine, _⟩ := build_eq_ok h
  obtain ⟨calls, resolved, _, _, memo, hcourse, hbuild, hrecorded⟩ :=
    exists_course_of_examine_ok hexamine t s
  cases resolved with
  | error e => cases h.symm.trans hbuild
  | ok added =>
    cases h.symm.trans hbuild
    exact ⟨calls, hrecorded, hcourse.nodup_questions.1, hcourse.gives⟩

end FacetIndex
