/-
  Proofs/Replay.lean --- building a document again.

  WHAT THIS FILE IS FOR.  What a steady taxonomy answered it answers again, whatever
  was asked in between, and without a change.  So a dialogue that came to its end
  once can be held again at any later time.

  WHAT IS PROVED.

      Taxonomy.Steady.later_of_build    a build only goes on from a state
      Dialogue.from_run_again           a dialogue that ended well ends in the same
                                        way in every later state, and leaves it
      Session.later_playAll             so do other documents, added categories and
                                        changes to other settings in between
      Memory.build_again                a document that was built once is built
                                        again in the same way, as long as nobody
                                        touches the settings of its dimensions

  The kinds of the document are known by then, and its questions are settled;
  that the settings of other dimensions do not matter is `Proofs/Agreement.lean`.

  WHAT IS NOT SAID.  A document that failed may be built later.
-/
import FacetIndex.Proofs.Agreement
import FacetIndex.Proofs.History
import FacetIndex.Proofs.Resolution

set_option autoImplicit false

namespace FacetIndex

open Std (TreeMap)

variable {σ α : Type} {t : Taxonomy σ} {Known : σ → Ordinal → Prop}

/-! ## Later states of a taxonomy -/

namespace Taxonomy

/-- What is known or settled in one state is so in the other. -/
structure Later (t : Taxonomy σ) (Known : σ → Ordinal → Prop) (s s' : σ) : Prop where
  known : ∀ o, Known s o → Known s' o
  settled : ∀ q o, q.Proper (Known s) → t.Settled s q o → t.Settled s' q o

theorem Later.refl (t : Taxonomy σ) (Known : σ → Ordinal → Prop) (s : σ) : t.Later Known s s where
  known _ h := h
  settled _ _ _ h := h

theorem Later.trans {a b c : σ} (hab : t.Later Known a b) (hbc : t.Later Known b c) :
    t.Later Known a c where
  known o h := hbc.known o (hab.known o h)
  settled q o hq h := hbc.settled q o (hq.mono hab.known) (hab.settled q o hq h)

variable (steady : t.Steady Known)
include steady

theorem Steady.later_of_ask {s s' : σ} {q : Question} {r : Except Error Ordinal}
    (h : (t.ask q).from s = (r, s')) : t.Later Known s s' where
  known _ ho := steady.known_kept ho h
  settled _ _ hq hsettled := steady.settled_kept hq hsettled h

theorem Steady.later_of_run (c : Dialogue α) (s : σ) :
    t.Later Known s ((c.run t).from s).2 := by
  induction c generalizing s with
  | done result => exact Later.refl t Known s
  | ask q next ih =>
    rcases h : (t.ask q).from s with ⟨result, s'⟩
    cases result with
    | ok o =>
      rw [Dialogue.from_run_ask_of_ok h]
      exact (steady.later_of_ask h).trans (ih o s')
    | error e =>
      rw [Dialogue.from_run_ask_of_error h]
      exact steady.later_of_ask h

theorem Steady.later_of_resolve {store : Dimension.Store} {d : Document} {s s' : σ} {memo : Memo}
    {result : Except Error Addition}
    (h : (t.memoised.resolve store d).from (s, {}) = (result, s', memo)) :
    t.Later Known s s' := by
  have hrun := steady.later_of_run (Dialogue.resolve store d) s
  rwa [Dialogue.run_resolve, steady.from_resolve_of_memoised h] at hrun

theorem Steady.later_of_build {ix ix' : Indexer} {s s' : σ} {d : Document}
    {result : Except Error Built} (h : ix.build t s d = (result, ix', s')) :
    t.Later Known s s' := by
  obtain ⟨violation, _, hbuild⟩ | ⟨kinds, s₁, memo, _, hresolve⟩ := ix.build_cases t s d
  · cases hbuild.symm.trans h
    exact Later.refl t Known s
  · obtain ⟨e, hresolve, hbuild⟩ | ⟨added, hresolve, hbuild⟩ := hresolve
    · cases hbuild.symm.trans h
      exact steady.later_of_resolve hresolve
    · cases hbuild.symm.trans h
      exact steady.later_of_resolve hresolve

end Taxonomy

/-- A dialogue that came to its end is held again with the same answers. -/
theorem Dialogue.from_run_again (steady : t.Steady Known) (c : Dialogue α) :
    ∀ {known : Ordinal → Prop} {s s' later : σ} {x : α}, c.Grounded known →
      (∀ o, known o → Known s o) → (c.run t).from s = (.ok x, s') → t.Later Known s' later →
      (c.run t).from later = (.ok x, later) := by
  induction c with
  | done result =>
    intro known s s' later x _ _ h _
    rw [from_run_done] at h ⊢
    rw [(Prod.mk.inj h).1]
  | ask q next ih =>
    intro known s s' later x hgrounded hknown h hlater
    have hq : q.Proper (Known s) := hgrounded.1.mono hknown
    rcases hask : (t.ask q).from s with ⟨result, s₁⟩
    cases result with
    | error e =>
      rw [from_run_ask_of_error hask] at h
      cases (Prod.mk.inj h).1
    | ok o =>
      rw [from_run_ask_of_ok hask] at h
      have hrest := steady.later_of_run (next o) s₁
      rw [h] at hrest
      have hkept := steady.later_of_ask hask
      -- The question is settled since then, and asking it again changes nothing.
      have hsettled := (hrest.trans hlater).settled q o (hq.mono hkept.known)
        (steady.settled_answer hq hask)
      have hknown' : ∀ p, known p ∨ p = o → Known s₁ p := by
        rintro p (hp | rfl)
        · exact hkept.known p (hknown p hp)
        · exact steady.known_answer hq hask
      rw [from_run_ask_of_ok hsettled]
      exact ih o (hgrounded.2 o) hknown' h hlater

/-- A document that was resolved is resolved again to the same addition. -/
theorem Taxonomy.Steady.from_resolve_again (steady : t.Steady Known) {store : Dimension.Store}
    {d : Document} {s s' later : σ} {memo : Memo} {added : Addition}
    (h : (t.memoised.resolve store d).from (s, {}) = (.ok added, s', memo))
    (hlater : t.Later Known s' later) :
    ∃ memo', (t.memoised.resolve store d).from (later, {}) = (.ok added, later, memo') := by
  have hfirst := steady.from_resolve_of_memoised h
  rw [← Dialogue.run_resolve] at hfirst
  have hsecond := Dialogue.from_run_again steady (Dialogue.resolve store d)
    (Dialogue.grounded_resolve store d fun _ => False) (fun _ => False.elim) hfirst hlater
  rw [Dialogue.run_resolve] at hsecond
  obtain ⟨memo', hagain⟩ := steady.from_resolve_memoised store d later
  rw [hsecond] at hagain
  exact ⟨memo', hagain⟩

/-! ## Known kinds -/

theorem KindTable.insertIfNew_of_mem {known : KindTable} {field : String} (h : field ∈ known)
    (kind : Association.Kind) : known.insertIfNew field kind = known := by
  have hmem : Std.DTreeMap.Internal.Impl.contains field known.inner.inner = true := h
  unfold TreeMap.insertIfNew Std.DTreeMap.insertIfNew Std.DTreeMap.Internal.Impl.insertIfNew
  simp only [hmem, if_true]

theorem KindTable.foldl_insertIfNew_of_mem {known : KindTable}
    {entries : List (String × Association.Kind)} (h : ∀ e ∈ entries, e.1 ∈ known) :
    entries.foldl (fun known e => known.insertIfNew e.1 e.2) known = known := by
  induction entries with
  | nil => rfl
  | cons e es ih =>
    rw [List.foldl_cons, KindTable.insertIfNew_of_mem (h e List.mem_cons_self)]
    exact ih fun e' he' => h e' (List.mem_cons_of_mem e he')

/-- An indexer that knows the kinds of all fields of a document learns nothing from it. -/
theorem Indexer.track_of_known {ix : Indexer} {kinds : KindTable}
    (h : ∀ field kind, kinds[field]? = some kind → field ∈ ix.kinds) : ix.track kinds = ix := by
  unfold track
  rw [TreeMap.foldl_eq_foldl_toList, KindTable.foldl_insertIfNew_of_mem]
  intro e he
  exact h e.1 e.2 (TreeMap.mem_toList_iff_getElem?_eq_some.1 he)

theorem Indexer.settings_build (ix : Indexer) (t : Taxonomy σ) (s : σ) (d : Document) :
    (ix.build t s d).2.1.settings = ix.settings := by
  rcases h : ix.build t s d with ⟨result, ix', s'⟩
  cases result with
  | ok b =>
    obtain ⟨kinds, memo, _, _, _, rfl⟩ := build_eq_ok h
    rfl
  | error e => rw [indexer_eq_of_build_error h]

/-! ## Sessions -/

/-- What may happen between two times at which a document is built. -/
inductive Interlude where
  /-- A document is built, or refused. -/
  | build (d : Document)
  /-- Others ask the taxonomy for a category. -/
  | add (label : Label)
  /-- The settings of a dimension are changed. -/
  | change (dimension : String) (c : Dimension.Change)

/-- The settings of the dimensions of a document are left alone. -/
def Interlude.Spares (d : Document) : Interlude → Prop
  | .change dimension _ => ∀ f ∈ d.facets, f.dimension ≠ dimension
  | .build _ | .add _ => True

namespace Session

/-- The session after an interlude. -/
def play (t : Taxonomy σ) (x : Session σ) : Interlude → Session σ
  | .build d => x.serve t (.build d)
  | .add label => x.serve t (.outside ((t.addCategory label).from x.taxonomy).2)
  | .change dimension c => x.serve t (.change dimension c)

/-- The session after several interludes. -/
def playAll (t : Taxonomy σ) (x : Session σ) (interludes : List Interlude) : Session σ :=
  interludes.foldl (play t) x

/-- What matters to a document that was built is still so in a later session. -/
structure Later (t : Taxonomy σ) (Known : σ → Ordinal → Prop) (d : Document)
    (x y : Session σ) : Prop where
  settings : x.indexer.settings.Agree d y.indexer.settings
  kinds : ∀ (field : String) (kind : Association.Kind), x.indexer.kinds[field]? = some kind →
    y.indexer.kinds[field]? = some kind
  taxonomy : t.Later Known x.taxonomy y.taxonomy

variable {d : Document} {x y z : Session σ}

theorem Later.refl (t : Taxonomy σ) (Known : σ → Ordinal → Prop) (d : Document) (x : Session σ) :
    Later t Known d x x where
  settings := .refl d _
  kinds _ _ h := h
  taxonomy := .refl t Known _

theorem Later.trans (hxy : Later t Known d x y) (hyz : Later t Known d y z) :
    Later t Known d x z where
  settings := hxy.settings.trans hyz.settings
  kinds field kind h := hyz.kinds field kind (hxy.kinds field kind h)
  taxonomy := hxy.taxonomy.trans hyz.taxonomy

theorem serve_build (t : Taxonomy σ) (x : Session σ) (d : Document) :
    (x.serve t (.build d)).indexer = (x.indexer.build t x.taxonomy d).2.1 ∧
      (x.serve t (.build d)).taxonomy = (x.indexer.build t x.taxonomy d).2.2 := by
  rcases hbuild : x.indexer.build t x.taxonomy d with ⟨result, ix, s⟩
  cases result with
  | ok b =>
    rw [serve_build_of_ok hbuild]
    exact ⟨rfl, rfl⟩
  | error e =>
    rw [serve_build_of_error hbuild, Indexer.indexer_eq_of_build_error hbuild]
    exact ⟨rfl, rfl⟩

theorem later_play (steady : t.Steady Known) (x : Session σ) {i : Interlude} (h : i.Spares d) :
    Later t Known d x (x.play t i) := by
  cases i with
  | build d' =>
    obtain ⟨hindexer, htaxonomy⟩ := serve_build t x d'
    refine ⟨?_, fun field kind hkind => kinds_serve hkind _, ?_⟩
    · rw [play, hindexer, Indexer.settings_build]
      exact .refl d _
    · rw [play, htaxonomy]
      exact steady.later_of_build rfl
  | add label =>
    exact ⟨.refl d _, fun _ _ h => h, steady.later_of_ask (q := .category label) rfl⟩
  | change dimension c =>
    exact ⟨Dimension.Store.agree_change h _ c, fun _ _ h => h, .refl t Known _⟩

theorem later_playAll (steady : t.Steady Known) (x : Session σ) {interludes : List Interlude}
    (h : ∀ i ∈ interludes, i.Spares d) : Later t Known d x (x.playAll t interludes) := by
  induction interludes generalizing x with
  | nil => exact Later.refl t Known d x
  | cons i interludes ih =>
    have hfirst := later_play steady x (h i List.mem_cons_self)
    exact hfirst.trans (ih (x.play t i) fun j hj => h j (List.mem_cons_of_mem i hj))

end Session

/-- A document that was built is admitted again, and its kinds are known already. -/
theorem Indexer.examine_again {ix ix' later : Indexer} {s s' : σ} {d : Document} {b : Built}
    (hbuild : ix.build t s d = (.ok b, ix', s')) (hsettings : ix.settings.Agree d later.settings)
    (hknown : ∀ (field : String) (kind : Association.Kind), ix'.kinds[field]? = some kind →
      later.kinds[field]? = some kind) :
    ∃ kinds, d.examine later.settings later.kinds = .ok kinds ∧ later.track kinds = later := by
  have hmem : ∀ (field : String) (kind : Association.Kind),
      kind ∈ ix.settings.kindsAt field d.facets → later.kinds[field]? = some kind :=
    fun field kind hkind => hknown field kind (kinds_of_build_of_mem hbuild hkind)
  obtain ⟨hfirst, _⟩ := kinds_of_build hbuild
  have hkeep : Facet.KeepRules ix.settings later.kinds d.facets :=
    { hfirst with
      uniform := fun field kind hkind =>
        ⟨(hfirst.uniform field kind hkind).1, fun current hcurrent =>
          Option.some.inj (hcurrent.symm.trans (hmem field kind hkind))⟩ }
  rw [← hsettings.examine_eq]
  obtain ⟨violation, _, before, f, after, hfacets, _, hbreaks⟩ | ⟨kinds, hexamine, _, hkinds⟩ :=
    Document.examine_cases ix.settings later.kinds d
  · exact absurd hkeep (Document.not_keepRules_of_breaks hfacets hbreaks)
  · refine ⟨kinds, hexamine, track_of_known fun field kind hkind => ?_⟩
    rw [hkinds] at hkind
    rw [TreeMap.mem_iff_isSome_getElem?, hmem field kind (List.mem_of_head? hkind)]
    rfl

/-- Over a steady taxonomy, a document that was built is built again, and nothing changes. -/
theorem Session.build_of_later (steady : t.Steady Known) {x : Session σ} {d : Document} {b : Built}
    {ix : Indexer} {s : σ} (hbuild : x.indexer.build t x.taxonomy d = (.ok b, ix, s))
    {y : Session σ} (hlater : Later t Known d (x.serve t (.build d)) y) :
    y.indexer.build t y.taxonomy d = (.ok b, y.indexer, y.taxonomy) := by
  rw [serve_build_of_ok hbuild] at hlater
  have hsame : ix.settings = x.indexer.settings := by
    rw [← x.indexer.settings_build t x.taxonomy d, hbuild]
  have hsettings : x.indexer.settings.Agree d y.indexer.settings := hsame ▸ hlater.settings
  obtain ⟨kinds, hexamine, htrack⟩ := Indexer.examine_again hbuild hsettings hlater.kinds
  obtain ⟨_, memo, _, hresolve, rfl, _⟩ := Indexer.build_eq_ok hbuild
  obtain ⟨memo', hagain⟩ := steady.from_resolve_again hresolve hlater.taxonomy
  rw [hsettings.resolve_eq] at hagain
  rw [Indexer.build_of_resolve_ok hexamine hagain, htrack]

/-- A document that was built over a taxonomy in memory is built again in the same way, whatever was
done meanwhile, unless the settings of its dimensions were touched.  Building it again changes
neither the indexer, with the kinds that it knows, nor the taxonomy. -/
theorem Memory.build_again (x : Session Memory) (d : Document) (b : Built) (ix : Indexer)
    (m : Memory) (hbuild : x.indexer.build taxonomy x.taxonomy d = (.ok b, ix, m))
    (interludes : List Interlude) (hspares : ∀ i ∈ interludes, i.Spares d) :
    let y := (x.serve taxonomy (.build d)).playAll taxonomy interludes
    y.indexer.build taxonomy y.taxonomy d = (.ok b, y.indexer, y.taxonomy) :=
  Session.build_of_later steady hbuild (Session.later_playAll steady _ hspares)

/-- Regions have hierarchies, and a document may have several. -/
def surveySettings : Dimension.Store :=
  Dimension.Store.change {} "Region" (.all ⟨true, true, true, "regions"⟩)

/-- A measured height and two regions with an ancestor in common. -/
def survey : Document where
  indexable := [
    .facet (.category ⟨"Region", ["Tyrol", "North"], by decide, by decide⟩ (by decide)),
    .facet (.association ⟨"Height", ["summit"], by decide, by decide⟩ (.int 4478) (by decide)),
    .facet (.category ⟨"Region", ["Tyrol", "South"], by decide, by decide⟩ (by decide))]

/-- A height of another kind is refused, a region is added, and the settings of authors change. -/
def surveyInterludes : List Interlude := [
  .build { indexable :=
    [.facet (.association ⟨"Height", ["summit"], by decide, by decide⟩ (.bytes [1]) (by decide))] },
  .add ⟨"Region", ["Tyrol", "East"], by decide, by decide⟩,
  .change "Author" (.multiValued true)]

theorem Memory.build_again_survey :
    ∃ b ix m, Indexer.build ⟨surveySettings, ∅⟩ taxonomy {} survey = (.ok b, ix, m) ∧
      let x : Session Memory := ⟨⟨surveySettings, ∅⟩, {}, []⟩
      let y := (x.serve taxonomy (.build survey)).playAll taxonomy surveyInterludes
      y.indexer.build taxonomy y.taxonomy survey = (.ok b, y.indexer, y.taxonomy) := by
  obtain ⟨_, hbuild⟩ := Indexer.exists_build_memory ⟨surveySettings, ∅⟩ {} survey ⟨_, rfl⟩
    (by decide +kernel)
  have hspares : ∀ i ∈ surveyInterludes, i.Spares survey := by
    simp [surveyInterludes, Interlude.Spares, survey, Document.facets, Facet.dimension]
  exact ⟨_, _, _, hbuild, Memory.build_again ⟨⟨surveySettings, ∅⟩, {}, []⟩ survey _ _ _ hbuild
    surveyInterludes hspares⟩

end FacetIndex
