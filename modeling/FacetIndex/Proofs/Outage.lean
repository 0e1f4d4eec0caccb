/-
  Proofs/Outage.lean --- a build fails with a question.

  WHAT THIS FILE IS FOR.  Once a document is admitted, two things can still go wrong
  besides a question that fails: the search for the ancestors of an ordinal may have
  no end, and an ordinal set may be refused because one of the ordinals is negative.
  Neither can happen when the answers are `Orderly`: ordinals of categories are not
  negative, and whoever goes from parent to parent gets to the end.

  HOW IT GOES.  `Dialogue.Yields` follows a dialogue over all answers of some sort,
  and `Dialogue.yields_resolve` finds that with orderly ones a document is resolved.
  `Dialogue.Account` says how a dialogue ends that made certain calls; it is read
  off the course of the dialogue (`Dialogue.Course.account`).

  WHAT IS PROVED.

      Indexer.build_missing             without a taxonomy a document that needs an
                                        ordinal fails, and says why
      Indexer.build_of_nothing_asked    one that needs none is built over any
      Indexer.build_fails_with_question
          with orderly answers a build fails exactly if a question fails; that is
          the last one, and its error is the result.  The indexer stays as it was

  WHAT IS NOT SAID.  When answers are not orderly, a build may fail without a
  question that fails; nothing is claimed of it but that it changes no kind.
-/
import FacetIndex.Proofs.Exhaustion
import FacetIndex.Proofs.Transcript

set_option autoImplicit false

namespace FacetIndex

variable {σ α β : Type}

/-! ## Orderly answers -/

/-- Asked for the parent of the second ordinal, the answer may be the first one, and that is no
root. -/
def IsParent (Answers : Question → Ordinal → Prop) (p o : Ordinal) : Prop :=
  0 < p ∧ Answers (.parent o) p

/-- The ordinals of categories are not negative, and whoever goes from parent to parent gets to the
end. -/
structure Orderly (Answers : Question → Ordinal → Prop) : Prop where
  /-- The ordinal of a category is not negative. -/
  category_nonneg : ∀ l o, Answers (.category l) o → 0 ≤ o
  /-- No ordinal has endless ancestors. -/
  ends : WellFounded (IsParent Answers)

theorem Orderly.mono {Answers Answers' : Question → Ordinal → Prop} (h : Orderly Answers')
    (hle : ∀ q o, Answers q o → Answers' q o) : Orderly Answers where
  category_nonneg l o ho := h.category_nonneg l o (hle _ _ ho)
  ends := Subrelation.wf (fun hp => ⟨hp.1, hle _ _ hp.2⟩) h.ends

/-- There are no more distinct positive ordinals than the largest one says. -/
theorem Ordinal.length_le_largest {os : List Ordinal} (hpos : ∀ o ∈ os, 0 < o)
    (hnodup : os.Nodup) : os.length ≤ Ordinal.largest := by
  have hvalues : (os.map (·.toInt.toNat)).Nodup := by
    refine (List.nodup_map_iff_inj_on hnodup).2 fun a ha b hb hab => ?_
    rw [← OrdinalSet.ofNat_toNat (Int32.le_of_lt (hpos a ha)), hab,
      OrdinalSet.ofNat_toNat (Int32.le_of_lt (hpos b hb))]
  have hrange : (os.map (·.toInt.toNat)).toFinset ⊆ Finset.Icc 1 Ordinal.largest := by
    intro n hn
    obtain ⟨o, ho, rfl⟩ := List.mem_map.1 (List.mem_toFinset.1 hn)
    have hone := Int32.lt_iff_toInt_lt.1 (hpos o ho)
    rw [Int32.toInt_zero] at hone
    exact Finset.mem_Icc.2 ⟨by omega, OrdinalSet.toNat_le_largest o⟩
  have hcard := Finset.card_le_card hrange
  rwa [List.toFinset_card_of_nodup hvalues, List.length_map, Nat.card_Icc,
    Nat.add_sub_cancel] at hcard

/-! ## What a dialogue comes to -/

namespace Dialogue

/-- As long as all answers are of the sort, the dialogue succeeds with such a result. -/
def Yields (Answers : Question → Ordinal → Prop) : Dialogue α → (Result : α → Prop) → Prop
  | done (.ok x), Result => Result x
  | done (.error _), _ => False
  | ask q next, Result => ∀ o, Answers q o → (next o).Yields Answers Result

variable {Answers : Question → Ordinal → Prop}

theorem Yields.bind {d : Dialogue α} {f : α → Dialogue β} {Result : α → Prop}
    {Result' : β → Prop} (hd : d.Yields Answers Result)
    (hf : ∀ x, Result x → (f x).Yields Answers Result') :
    (d.bind f).Yields Answers Result' := by
  induction d with
  | done result =>
    cases result with
    | ok x => exact hf x hd
    | error e => exact hd.elim
  | ask q next ih => exact fun o ho => ih o (hd o ho)

theorem Yields.weaken {d : Dialogue α} {Result : α → Prop} (hd : d.Yields Answers Result) :
    d.Yields Answers fun _ => True := by
  induction d with
  | done result =>
    cases result with
    | ok x => trivial
    | error e => exact hd
  | ask q next ih => exact fun o ho => ih o (hd o ho)

theorem yields_each (Result : β → Prop) {f : α → Dialogue β}
    (hf : ∀ x, (f x).Yields Answers Result) (xs : List α) :
    (each f xs).Yields Answers fun ys => ∀ y ∈ ys, Result y := by
  induction xs with
  | nil => exact fun y hy => absurd hy List.not_mem_nil
  | cons x xs ih =>
    exact (hf x).bind fun y hy => ih.bind fun ys hys => List.forall_mem_cons.2 ⟨hy, hys⟩

theorem yields_blobs {blob : α → Dialogue Bytes}
    (h : ∀ x, (blob x).Yields Answers fun _ => True) (groups : List (String × α)) :
    (blobs blob groups).Yields Answers fun _ => True := by
  unfold blobs
  refine (yields_each (fun _ => True) (fun group => ?_) groups).weaken
  exact (h group.2).bind fun _ _ => trivial

theorem yields_associationBlob (values : List (Label × Association.Value)) :
    (associationBlob values).Yields Answers fun _ => True := by
  unfold associationBlob
  refine (yields_each (fun _ => True) (fun v => ?_) values).bind fun _ _ => trivial
  exact fun _ _ => trivial

section Orderly

variable (horderly : Orderly Answers)
include horderly

/-- The search comes to an end before it is given up: it meets no ordinal twice, and there are fewer
ordinals than steps.  Here `met` are the ordinals met so far. -/
theorem yields_ancestors (steps : Nat) :
    ∀ (o : Ordinal) (met : List Ordinal), Ordinal.largest < steps + met.length → met.Nodup →
      (∀ p ∈ met, 0 < p ∧ (p = o ∨ Relation.TransGen (IsParent Answers) o p)) →
      (ancestors steps o).Yields Answers fun above => ∀ p ∈ above, 0 < p := by
  induction steps with
  | zero =>
    intro o met hsteps hnodup hmet
    have := Ordinal.length_le_largest (fun p hp => (hmet p hp).1) hnodup
    omega
  | succ steps ih =>
    intro o met hsteps hnodup hmet parent hparent
    dsimp only
    split
    · rename_i hpos
      have hstep : Relation.TransGen (IsParent Answers) parent o := .single ⟨hpos, hparent⟩
      have hfresh : parent ∉ met := by
        intro hmem
        have hcycle : Relation.TransGen (IsParent Answers) parent parent := by
          obtain ⟨_, rfl | hbelow⟩ := hmet parent hmem
          · exact hstep
          · exact hstep.trans hbelow
        exact horderly.ends.transGen.asymmetric _ _ hcycle hcycle
      refine (ih parent (parent :: met) ?_ (List.nodup_cons.2 ⟨hfresh, hnodup⟩) ?_).bind ?_
      · rw [List.length_cons]
        omega
      · refine List.forall_mem_cons.2 ⟨⟨hpos, Or.inl rfl⟩, fun p hp => ?_⟩
        obtain ⟨hp, rfl | hbelow⟩ := hmet p hp
        · exact ⟨hp, Or.inr hstep⟩
        · exact ⟨hp, Or.inr (hstep.trans hbelow)⟩
      · exact fun further hfurther => List.forall_mem_cons.2 ⟨hpos, hfurther⟩
    · exact fun p hp => absurd hp List.not_mem_nil

theorem yields_ordinalsOf (settings : Dimension.Settings) (label : Label) :
    (ordinalsOf settings label).Yields Answers fun os => ∀ o ∈ os, 0 ≤ o := by
  intro ordinal hordinal
  have hnonneg := horderly.category_nonneg label ordinal hordinal
  dsimp only
  split
  · have habove := yields_ancestors horderly Taxonomy.ancestorSteps ordinal []
      (Nat.lt_succ_self _) .nil fun p hp => absurd hp List.not_mem_nil
    refine habove.bind fun above hpos => List.forall_mem_cons.2 ⟨hnonneg, fun p hp => ?_⟩
    refine Int32.le_of_lt (hpos p ?_)
    split at hp
    · exact hp
    · exact List.dropLast_subset above hp
  · exact List.forall_mem_cons.2 ⟨hnonneg, fun p hp => absurd hp List.not_mem_nil⟩

theorem yields_categoryBlob (store : Dimension.Store) (labels : List Label) :
    (categoryBlob store labels).Yields Answers fun _ => True := by
  refine (yields_each _ (fun label => yields_ordinalsOf horderly _ label) labels).bind
    fun ordinals hordinals => ?_
  have hnonneg : ∀ o ∈ ordinals.flatten, 0 ≤ o := by
    intro o ho
    obtain ⟨os, hos, ho⟩ := List.mem_flatten.1 ho
    exact hordinals os hos o ho
  rw [OrdinalSet.encode_eq_blob hnonneg]
  trivial

/-- With orderly answers a document is resolved. -/
theorem yields_resolve (store : Dimension.Store) (d : Document) :
    (resolve store d).Yields Answers fun _ => True := by
  refine (yields_blobs (yields_categoryBlob horderly store) _).bind fun categoryBlobs _ => ?_
  exact (yields_blobs yields_associationBlob _).bind fun associationBlobs _ => trivial

end Orderly

end Dialogue

/-! ## The question that fails -/

namespace Dialogue

/-- How a dialogue ends that made these calls behind a memo. -/
structure Account (t : Taxonomy σ) (c : Dialogue α) (memo : Memo) (calls : List Exchange)
    (result : Except Error α) : Prop where
  /-- The taxonomy gave the answers. -/
  given : ∀ q o, Exchange.Answers calls q o → t.Answers q o
  /-- A call that fails is the last one, and the result is its error. -/
  stops : ∀ call ∈ calls, ∀ e, call.answer = .error e →
    result = .error e ∧ calls.getLast? = some call
  /-- If the dialogue can go on with all the answers that it is given, nothing else fails. -/
  fails : ∀ (Answers : Question → Ordinal → Prop) Result, c.Yields Answers Result →
    (∀ q o, memo.find? q = some o → Answers q o) →
    (∀ q o, Exchange.Answers calls q o → Answers q o) →
    ∀ e, result = .error e → ∃ call ∈ calls, call.answer = .error e

namespace Account

variable {t : Taxonomy σ} {memo : Memo} {q : Question} {next : Ordinal → Dialogue α}
  {calls : List Exchange} {result : Except Error α} {o : Ordinal}

theorem of_done (t : Taxonomy σ) (memo : Memo) (result : Except Error α) :
    Account t (done result) memo [] result where
  given _ _ h := absurd h List.not_mem_nil
  stops _ hcall := absurd hcall List.not_mem_nil
  fails := by
    rintro Answers Result hyields _ _ e rfl
    exact hyields.elim

/-- A remembered answer makes no call. -/
theorem of_known (hfind : memo.find? q = some o) (h : Account t (next o) memo calls result) :
    Account t (ask q next) memo calls result where
  given := h.given
  stops := h.stops
  fails Answers Result hyields hmemo :=
    h.fails Answers Result (hyields o (hmemo q o hfind)) hmemo

theorem of_error (t : Taxonomy σ) (memo : Memo) (q : Question) (next : Ordinal → Dialogue α)
    (e : Error) : Account t (ask q next) memo [⟨q, .error e⟩] (.error e) where
  given p o hanswer := by cases List.mem_singleton.1 hanswer
  stops call hcall e' he' := by
    rw [List.mem_singleton.1 hcall] at he' ⊢
    cases he'
    exact ⟨rfl, rfl⟩
  fails Answers Result _ _ _ e' he' := ⟨_, List.mem_cons_self, by cases he'; rfl⟩

/-- An answer is the first call, and the others go on with it. -/
theorem of_ok {s s' : σ} (hask : (t.ask q).from s = (.ok o, s'))
    (h : Account t (next o) (memo.learn q o) calls result) :
    Account t (ask q next) memo (⟨q, .ok o⟩ :: calls) result where
  given p r hanswer := by
    rcases List.mem_cons.1 hanswer with heq | hanswer
    · cases heq
      exact ⟨s, s', hask⟩
    · exact h.given p r hanswer
  stops call hcall e he := by
    rcases List.mem_cons.1 hcall with rfl | hcall
    · cases he
    · obtain ⟨hresult, hlast⟩ := h.stops call hcall e he
      exact ⟨hresult, by rw [List.getLast?_cons, hlast, Option.getD_some]⟩
  fails Answers Result hyields hmemo hcalls e he := by
    have hanswer : Answers q o := hcalls q o List.mem_cons_self
    have hlearnt : ∀ p r, (memo.learn q o).find? p = some r → Answers p r := by
      intro p r hp
      obtain ⟨rfl, rfl⟩ | hp := Memo.eq_or_find?_of_learn hp
      · exact hanswer
      · exact hmemo p r hp
    obtain ⟨call, hcall, hfails⟩ := h.fails Answers Result (hyields o hanswer) hlearnt
      (fun p r hp => hcalls p r (List.mem_cons_of_mem _ hp)) e he
    exact ⟨call, List.mem_cons_of_mem _ hcall, hfails⟩

/-- With orderly answers resolving a document fails exactly if a question fails. -/
theorem error_iff {store : Dimension.Store} {d : Document} {resolved : Except Error Addition}
    (h : Account t (resolve store d) {} calls resolved)
    (horderly : Orderly (Exchange.Answers calls)) :
    (∃ e, resolved = .error e) ↔ ∃ call ∈ calls, ∃ e, call.answer = .error e := by
  constructor
  · rintro ⟨e, he⟩
    have hempty : ∀ q o, ({} : Memo).find? q = some o → Exchange.Answers calls q o :=
      fun q o hq => absurd hq (Memo.find?_empty_ne_some q o)
    obtain ⟨call, hcall, hfails⟩ :=
      h.fails _ _ (yields_resolve horderly store d) hempty (fun _ _ hq => hq) e he
    exact ⟨call, hcall, e, hfails⟩
  · rintro ⟨call, hcall, e, he⟩
    exact ⟨e, (h.stops call hcall e he).1⟩

end Account

/-- Behind a memo a dialogue ends with the first question that fails. -/
theorem Course.account {t : Taxonomy σ} {c : Dialogue α} {s s' : σ} {memo memo' : Memo}
    {calls : List Exchange} {result : Except Error α}
    (h : Course t c s memo calls result s' memo') : Account t c memo calls result := by
  induction h with
  | done result s memo => exact .of_done t memo result
  | known hfind rest ih => exact ih.of_known hfind
  | answered hfind hask rest ih => exact ih.of_ok hask
  | failed hfind hask => exact .of_error t _ _ _ _

/-! ## Documents that need no ordinals -/

/-- The dialogue begins with a question. -/
def Asks : Dialogue α → Prop
  | done _ => False
  | ask _ _ => True

theorem Asks.bind {d : Dialogue α} (h : d.Asks) (f : α → Dialogue β) : (d.bind f).Asks := by
  cases d with
  | done result => exact h.elim
  | ask q next => trivial

theorem asks_each {f : α → Dialogue β} {xs : List α} (hxs : xs ≠ []) (hf : ∀ x ∈ xs, (f x).Asks) :
    (each f xs).Asks := by
  obtain ⟨x, xs, rfl⟩ := List.exists_cons_of_ne_nil hxs
  exact (hf x List.mem_cons_self).bind _

theorem asks_blobs {blob : List α → Dialogue Bytes} (hblob : ∀ xs, xs ≠ [] → (blob xs).Asks)
    (route : α → String) {xs : List α} (hxs : xs ≠ []) :
    (blobs blob (Routing.byField route xs)).Asks := by
  refine asks_each ?_ fun group hgroup => (hblob group.2 ?_).bind _
  · obtain ⟨x, hx⟩ := List.exists_mem_of_ne_nil xs hxs
    have hgroup : (route x, xs.filter (route · = route x)) ∈ Routing.byField route xs :=
      Routing.mem_byField.2 ⟨List.mem_map_of_mem hx, rfl⟩
    exact List.ne_nil_of_mem hgroup
  · obtain ⟨hname, hmembers⟩ := Routing.mem_byField.1 hgroup
    obtain ⟨x, hx, hroute⟩ := List.mem_map.1 hname
    rw [hmembers]
    exact List.ne_nil_of_mem (List.mem_filter.2 ⟨hx, decide_eq_true hroute⟩)

theorem asks_categoryBlob (store : Dimension.Store) {labels : List Label} (h : labels ≠ []) :
    (categoryBlob store labels).Asks := by
  refine Asks.bind (d := each _ labels) (asks_each h fun label _ => ?_) _
  trivial

theorem asks_associationBlob {values : List (Label × Association.Value)} (h : values ≠ []) :
    (associationBlob values).Asks := by
  refine Asks.bind (d := each _ values) (asks_each h fun v _ => ?_) _
  trivial

/-- A document with a category or an association cannot be resolved without a question. -/
theorem asks_resolve (store : Dimension.Store) {d : Document}
    (h : d.categories ≠ [] ∨ d.associations ≠ []) : (resolve store d).Asks := by
  by_cases hcategories : d.categories = []
  · unfold resolve
    rw [Dimension.Store.routeCategories, hcategories]
    have hassociations := h.resolve_left (· hcategories)
    exact (asks_blobs (fun _ => asks_associationBlob) _ hassociations).bind _
  · exact (asks_blobs (fun _ => asks_categoryBlob store) _ hcategories).bind _

/-- A document without any is resolved without a question. -/
theorem resolve_of_nothing_asked (store : Dimension.Store) {d : Document}
    (h : d.categories = [] ∧ d.associations = []) :
    resolve store d = done (.ok (store.addition d [] [])) := by
  unfold resolve
  rw [Dimension.Store.routeCategories, h.1, Dimension.Store.routeAssociations, h.2]
  rfl

/-- Without a taxonomy the first question fails. -/
theorem from_run_missing {c : Dialogue α} (h : c.Asks) (s : σ) :
    (c.run (Taxonomy.missing : Taxonomy σ).memoised).from (s, {}) =
      (.error (.configuration .missingTaxonomy), s, {}) := by
  cases c with
  | done result => exact h.elim
  | ask q next =>
    have hask : ((Taxonomy.missing : Taxonomy σ).ask q).from s =
        (.error (.configuration .missingTaxonomy), s) := by
      cases q <;> rfl
    exact from_run_ask_of_error
      (Taxonomy.from_ask_memoised_of_error (Memo.find?_empty q) hask) next

end Dialogue

/-! ## Builds -/

namespace Indexer

variable {ix : Indexer} {d : Document} {kinds : KindTable}

/-- A document that needs no ordinals is built, whatever taxonomy there is, and leaves it alone. -/
theorem build_of_nothing_asked (hexamine : d.examine ix.settings ix.kinds = .ok kinds)
    (h : d.categories = [] ∧ d.associations = []) (t : Taxonomy σ) (s : σ) :
    ix.build t s d = (.ok ⟨d, ix.settings.addition d [] []⟩, ix.track kinds, s) := by
  have hresolve : (t.memoised.resolve ix.settings d).from (s, {}) =
      (.ok (ix.settings.addition d [] []), s, {}) := by
    rw [← Dialogue.run_resolve, Dialogue.resolve_of_nothing_asked _ h, Dialogue.from_run_done]
  exact build_of_resolve_ok hexamine hresolve

/-- One that does need them cannot be built without a taxonomy. -/
theorem build_missing (hexamine : d.examine ix.settings ix.kinds = .ok kinds)
    (h : d.categories ≠ [] ∨ d.associations ≠ []) (s : σ) :
    ix.build Taxonomy.missing s d = (.error (.configuration .missingTaxonomy), ix, s) := by
  have hresolve : (Taxonomy.missing.memoised.resolve ix.settings d).from (s, {}) =
      (.error (.configuration .missingTaxonomy), s, {}) := by
    rw [← Dialogue.run_resolve, Dialogue.from_run_missing (Dialogue.asks_resolve _ h)]
  exact build_of_resolve_error hexamine hresolve

/-- Without a taxonomy exactly the documents fail that need ordinals. -/
theorem exists_result_of_missing (hexamine : d.examine ix.settings ix.kinds = .ok kinds) (s : σ) :
    ∃ result ix', ix.build Taxonomy.missing s d = (result, ix', s) ∧
      ((∃ e, result = .error e) ↔ d.categories ≠ [] ∨ d.associations ≠ []) ∧
      ∀ e, result = .error e → e = .configuration .missingTaxonomy ∧ ix' = ix := by
  by_cases h : d.categories = [] ∧ d.associations = []
  · refine ⟨_, _, build_of_nothing_asked hexamine h _ s, ?_, ?_⟩
    · simp [h]
    · rintro e ⟨⟩
  · have hneeds : d.categories ≠ [] ∨ d.associations ≠ [] := not_and_or.1 h
    refine ⟨_, _, build_missing hexamine hneeds s, iff_of_true ⟨_, rfl⟩ hneeds, ?_⟩
    rintro e ⟨⟩
    exact ⟨rfl, rfl⟩

/-- Over a taxonomy in memory that has room none fails. -/
theorem exists_built_of_size_le (hexamine : d.examine ix.settings ix.kinds = .ok kinds)
    {m m' : Memory} {ix' : Indexer} {result : Except Error Built}
    (hbuild : ix.build Memory.taxonomy m d = (result, ix', m')) (hsize : m'.size ≤ 2 ^ 31) :
    ∃ b, result = .ok b := by
  cases result with
  | ok b => exact ⟨b, rfl⟩
  | error e =>
    have hother : e.isValidation = false := by
      cases e with
      | validation violation =>
        cases hexamine.symm.trans (examine_of_build_refused Memory.reportsNoRule hbuild)
      | _ => rfl
    exact absurd (Memory.fits_iff_size_le.2 hsize) (not_fits_of_build_error hbuild hother)

/-- How building an admitted document fails.  With a taxonomy whose answers are orderly it fails
exactly if a question fails; that is the last one, and its error is the result.  Without a taxonomy
it fails exactly if there are categories or associations, and says that the taxonomy is missing.  In
both cases the indexer stays as it was.  A document that has neither is built without a question.
Over a taxonomy in memory every admitted document is built, as long as there are ordinals for all
categories. -/
theorem build_fails_with_question (hexamine : d.examine ix.settings ix.kinds = .ok kinds) :
    (∀ (t : Taxonomy σ) (s : σ), ∃ calls result ix' s',
      ix.build t s d = (result, ix', s') ∧
      ix.build t.recording (s, []) d = (result, ix', s', calls) ∧
      (Orderly t.Answers → Orderly (Exchange.Answers calls)) ∧
      (Orderly (Exchange.Answers calls) →
        ((∃ e, result = .error e) ↔ ∃ call ∈ calls, ∃ e, call.answer = .error e)) ∧
      (∀ call ∈ calls, ∀ e, call.answer = .error e →
        result = .error e ∧ calls.getLast? = some call) ∧
      (∀ e, result = .error e → ix' = ix) ∧
      (d.categories = [] ∧ d.associations = [] → calls = [] ∧ s' = s ∧ ∃ b, result = .ok b)) ∧
    (∀ s : σ, ∃ result ix', ix.build Taxonomy.missing s d = (result, ix', s) ∧
      ((∃ e, result = .error e) ↔ d.categories ≠ [] ∨ d.associations ≠ []) ∧
      ∀ e, result = .error e → e = .configuration .missingTaxonomy ∧ ix' = ix) ∧
    ∀ m result ix' m', ix.build Memory.taxonomy m d = (result, ix', m') → m'.size ≤ 2 ^ 31 →
      ∃ b, result = .ok b := by
  refine ⟨fun t s => ?_, exists_result_of_missing hexamine, fun m result ix' m' =>
    exists_built_of_size_le hexamine⟩
  obtain ⟨calls, resolved, ix', s', memo, hcourse, hbuild, hrecorded⟩ :=
    exists_course_of_examine_ok hexamine t s
  have haccount := hcourse.account
  have hresult : ∀ e, resolved.map (fun added => (⟨d, added⟩ : Built)) = .error e ↔
      resolved = .error e := by
    intro e
    cases resolved <;> simp [Except.map]
  refine ⟨calls, _, ix', s', hbuild, hrecorded, fun h => h.mono haccount.given, fun h => ?_,
    fun call hcall e he => ?_, fun e he => ?_, fun hnothing => ?_⟩
  · rw [exists_congr hresult, haccount.error_iff h]
  · exact (haccount.stops call hcall e he).imp_left (hresult e).2
  · rw [he] at hbuild
    exact indexer_eq_of_build_error hbuild
  · have hsilent := build_of_nothing_asked hexamine hnothing t.recording (s, [])
    obtain ⟨hbuilt, hrest⟩ := Prod.mk.inj (hrecorded.symm.trans hsilent)
    obtain ⟨_, hstate⟩ := Prod.mk.inj hrest
    obtain ⟨rfl, rfl⟩ := Prod.mk.inj hstate
    exact ⟨rfl, rfl, _, hbuilt⟩

/-- Shelves stand below one another, and a document may stand on several. -/
def shelvingSettings : Dimension.Store :=
  Dimension.Store.change {} "Shelf" (.all ⟨true, true, false, "shelves"⟩)

/-- A document on one shelf. -/
def shelvedOnce : Document where
  indexable := [.facet (.category ⟨"Shelf", ["Upper", "Third"], by decide, by decide⟩ (by decide))]

/-- Cannot read the parent of an ordinal other than 7. -/
def damagedShelves : Taxonomy Unit :=
  Taxonomy.fixed (fun _ => .ok 7)
    (fun o => if o = 7 then .ok 4 else .error (.taxonomy "parents" "unreadable"))

theorem orderly_damagedShelves : Orderly damagedShelves.Answers where
  category_nonneg := by
    rintro l o ⟨_, _, h⟩
    cases h
    decide
  ends := by
    refine Subrelation.wf (r := fun p o : Ordinal => p.toInt.toNat < o.toInt.toNat) ?_
      (measure fun o : Ordinal => o.toInt.toNat).wf
    rintro p o ⟨_, _, _, h⟩
    have hanswer : (if o = 7 then .ok 4 else .error (.taxonomy "parents" "unreadable")) =
        (.ok p : Except Error Ordinal) := (Prod.mk.inj h).1
    split at hanswer
    · rename_i ho
      cases hanswer
      subst ho
      decide
    · cases hanswer

/-- The parent of the parent cannot be read, so that nothing is asked after it. -/
theorem build_fails_with_question_damagedShelves :
    ∃ calls ix', Indexer.build ⟨shelvingSettings, ∅⟩ damagedShelves.recording ((), []) shelvedOnce =
        (.error (.taxonomy "parents" "unreadable"), ix', (), calls) ∧
      calls = [
        ⟨.category ⟨"Shelf", ["Upper", "Third"], by decide, by decide⟩, .ok 7⟩,
        ⟨.parent 7, .ok 4⟩, ⟨.parent 4, .error (.taxonomy "parents" "unreadable")⟩] ∧
      Orderly (Exchange.Answers calls) ∧ ix' = ⟨shelvingSettings, ∅⟩ := by
  have hexamine : ∃ kinds, shelvedOnce.examine shelvingSettings ∅ = .ok kinds := ⟨_, rfl⟩
  obtain ⟨kinds, hexamine⟩ := hexamine
  obtain ⟨calls, result, ix', _, _, hrecorded, horderly, _, hlast, hsame, _⟩ :=
    (@build_fails_with_question Unit ⟨shelvingSettings, ∅⟩ shelvedOnce kinds hexamine).1
      damagedShelves ()
  have hcalls := congrArg (·.2.2.2) hrecorded.symm
  dsimp only at hcalls
  have heval : calls = [
        ⟨.category ⟨"Shelf", ["Upper", "Third"], by decide, by decide⟩, .ok 7⟩,
        ⟨.parent 7, .ok 4⟩, ⟨.parent 4, .error (.taxonomy "parents" "unreadable")⟩] := by
    rw [hcalls]
    rfl
  obtain ⟨rfl, _⟩ := hlast ⟨.parent 4, .error (.taxonomy "parents" "unreadable")⟩
    (by rw [heval]; simp) _ rfl
  exact ⟨calls, ix', hrecorded, heval, horderly orderly_damagedShelves, hsame _ rfl⟩

end Indexer

end FacetIndex
