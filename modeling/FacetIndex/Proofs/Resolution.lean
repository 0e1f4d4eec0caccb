/-
  Proofs/Resolution.lean --- resolution over a taxonomy in memory.

  WHAT THIS FILE IS FOR.  Over a taxonomy in memory nothing fails, and what a
  document is resolved into can be said without running anything: first the labels
  that the document asks for are added, in the order of its fields, and then every
  ordinal is read off the taxonomy that results.  `Memory.Reads` is that kind of
  computation; it is kept by sequences, so that each part of resolving a document
  is one step.

  WHAT IS PROVED.

      Memory.from_ancestors        the ancestors of an ordinal are the ordinals of
                                   the ancestors
      Memory.reads_resolve         what a document is resolved into
      Indexer.build_memory_of_examine_ok, Indexer.exists_build_memory
                                   an admitted document is built, as long as there
                                   are ordinals for its labels
      Indexer.added_of_build_memory
                                   and what it adds is read off the taxonomy that
                                   it leaves

  WHAT IS NOT SAID.  It takes room for all labels, `Memory.Fits`.  What holds
  without it is in `Proofs/Gathering.lean` and `Proofs/AssociationRecords.lean`.
-/
import FacetIndex.Proofs.Indexer
import FacetIndex.Proofs.OrdinalSet
import FacetIndex.Proofs.Steadiness

set_option autoImplicit false

namespace FacetIndex

namespace Memory

/-! ## Computations that add labels and read ordinals -/

/-- The computation adds the labels, one after the other, and gives what `result` reads off the
taxonomy that has them. -/
structure Reads {α : Type} (c : Ask Memory α) (ls : List Label) (result : Memory → α) : Prop where
  /-- However it succeeds, exactly the labels are added. -/
  adds : ∀ {m m' : Memory} {x : α}, c.from m = (.ok x, m') → m' = m.addAll ls
  /-- As long as there are ordinals for the labels it succeeds. -/
  succeeds : ∀ {m : Memory}, (m.addAll ls).Fits →
    c.from m = (.ok (result (m.addAll ls)), m.addAll ls)
  /-- The result can be read off any later taxonomy. -/
  stable : ∀ {m m' : Memory}, (∀ l ∈ ls, m.Has l) → m.Extends m' → result m' = result m

namespace Reads

variable {α β γ : Type} {c : Ask Memory α} {ls : List Label} {result : Memory → α}

theorem of_pure (x : α) : Reads (pure x) [] fun _ => x where
  adds := by
    intro m m' y h
    cases h
    rfl
  succeeds _ := rfl
  stable _ _ := rfl

/-- Goes on with something that asks no further question. -/
theorem then_pure (h : Reads c ls result) {next : α → Ask Memory β} {f : Memory → β}
    (hadds : ∀ {x : α} {m m' : Memory} {y : β}, (next x).from m = (.ok y, m') → m' = m)
    (hnext : ∀ {m : Memory}, m.Fits → (∀ l ∈ ls, m.Has l) →
      (next (result m)).from m = (.ok (f m), m))
    (hstable : ∀ {m m' : Memory}, (∀ l ∈ ls, m.Has l) → m.Extends m' → f m' = f m) :
    Reads (c >>= next) ls f where
  adds := by
    intro m m' y hrun
    obtain ⟨x, m₁, hc, hx⟩ := Ask.from_bind_eq_ok_iff.1 hrun
    rw [hadds hx, h.adds hc]
  succeeds := by
    intro m hfits
    rw [Ask.from_bind_of_ok (h.succeeds hfits)]
    exact hnext hfits fun l hl => has_addAll hl
  stable := hstable

theorem map (h : Reads c ls result) (f : α → β) :
    Reads (c >>= fun x => pure (f x)) ls fun m => f (result m) :=
  h.then_pure (fun hy => (Prod.mk.inj hy).2.symm) (fun _ _ => rfl)
    fun hhas hle => congrArg f (h.stable hhas hle)

/-- Two computations in a row; what the first has read can still be read at the end. -/
theorem seq {c' : Ask Memory β} {ls' : List Label} {result' : Memory → β} (h : Reads c ls result)
    (h' : Reads c' ls' result') (f : α → β → γ) :
    Reads (c >>= fun x => c' >>= fun y => pure (f x y)) (ls ++ ls')
      fun m => f (result m) (result' m) where
  adds := by
    intro m m' z hrun
    obtain ⟨x, m₁, hc, hrest⟩ := Ask.from_bind_eq_ok_iff.1 hrun
    obtain ⟨y, m₂, hc', hz⟩ := Ask.from_bind_eq_ok_iff.1 hrest
    cases hz
    rw [addAll_append, ← h.adds hc, h'.adds hc']
  succeeds := by
    intro m hfits
    rw [addAll_append] at hfits ⊢
    have hle := extends_addAll (m.addAll ls) ls'
    have hkept := h.stable (fun l hl => has_addAll hl) hle
    rw [Ask.from_bind_of_ok (h.succeeds (hfits.of_extends hle)),
      Ask.from_bind_of_ok (h'.succeeds hfits), hkept]
    rfl
  stable := by
    intro m m' hhas hle
    rw [h.stable (fun l hl => hhas l (List.mem_append_left ls' hl)) hle,
      h'.stable (fun l hl => hhas l (List.mem_append_right ls hl)) hle]

theorem mapM {f : α → Ask Memory β} {lsOf : α → List Label} {resultOf : α → Memory → β}
    (h : ∀ x, Reads (f x) (lsOf x) (resultOf x)) (xs : List α) :
    Reads (xs.mapM f) (xs.flatMap lsOf) fun m => xs.map fun x => resultOf x m := by
  induction xs with
  | nil => exact of_pure []
  | cons x xs ih =>
    rw [List.mapM_cons, List.flatMap_cons]
    exact (h x).seq ih List.cons

end Reads

/-! ## One category -/

theorem reads_addCategory (l : Label) :
    Reads (taxonomy.addCategory l) [l] fun m => m.ordinalOf l where
  adds := by
    intro m m' o h
    cases (from_addCategory m l).symm.trans h
    rfl
  succeeds _ := from_addCategory _ l
  stable hhas hle := hle.ordinalOf_eq (hhas l List.mem_cons_self)

/-- Asking for ancestors adds nothing. -/
theorem ancestors_keeps (steps : Nat) :
    ∀ {o : Ordinal} {m m' : Memory} {os : List Ordinal},
      (taxonomy.ancestors steps o).from m = (.ok os, m') → m' = m := by
  induction steps with
  | zero =>
    intro o m m' os h
    cases h
  | succ steps ih =>
    intro o m m' os h
    obtain ⟨parent, m₁, hparent, hrest⟩ := Ask.from_bind_eq_ok_iff.1 h
    cases (from_parentOf m o).symm.trans hparent
    split at hrest
    · obtain ⟨further, m₂, hfurther, hpure⟩ := Ask.from_bind_eq_ok_iff.1 hrest
      cases hpure
      exact ih hfurther
    · cases hrest
      rfl

/-- The ancestors of the ordinal of a category are the ordinals of its ancestors. -/
theorem from_ancestors {m : Memory} (hm : m.Fits) (steps : Nat) :
    ∀ {l : Label}, m.Has l → l.path.length < steps →
      (taxonomy.ancestors steps (m.ordinalOf l)).from m = (.ok (l.above.map m.ordinalOf), m) := by
  induction steps with
  | zero =>
    intro l _ hsteps
    exact absurd hsteps (Nat.not_lt_zero _)
  | succ steps ih =>
    intro l hl hsteps
    rw [Taxonomy.ancestors, Ask.from_bind_of_ok (from_parentOf m _)]
    cases hn : l.path.length with
    | zero =>
      rw [parentOf_ordinalOf_of_path_nil hm hl hn, if_neg (by decide), Label.above, hn]
      rfl
    | succ n =>
      have hparent := hl.cut n
      have hlength : (l.cut n).path.length = n := by
        rw [Label.path_cut, List.length_take]
        omega
      -- The ancestors of the parent are the other ancestors.
      have habove : l.above = l.cut n :: (l.cut n).above := by
        rw [Label.above, Label.above, hn, hlength, List.range_succ, List.reverse_append,
          List.reverse_singleton, List.singleton_append, List.map_cons]
        refine congrArg _ (List.map_congr_left fun k hk => ?_)
        rw [List.mem_reverse, List.mem_range] at hk
        rw [Label.cut_cut, Nat.min_eq_left (Nat.le_of_lt hk)]
      rw [parentOf_ordinalOf_of_path_succ hm hl hn, if_pos (ordinalOf_pos hm hparent),
        Ask.from_bind_of_ok (ih hparent (by omega)), habove]
      rfl

theorem has_of_mem_counted {m : Memory} {settings : Dimension.Settings} {l k : Label}
    (hl : m.Has l) (hk : k ∈ l.counted settings) : m.Has k := by
  obtain ⟨n, _, rfl⟩ := Label.eq_cut_of_mem_counted hk
  exact hl.cut n

/-- The ordinals that stand for a category are those of the labels counted for it. -/
theorem reads_ordinalsOf (settings : Dimension.Settings) (l : Label) :
    Reads (taxonomy.ordinalsOf settings l) [l] fun m =>
      (l.counted settings).map m.ordinalOf := by
  refine (reads_addCategory l).then_pure ?_ ?_ ?_
  · intro ordinal m m' os h
    split at h
    · obtain ⟨above, m₁, habove, hpure⟩ := Ask.from_bind_eq_ok_iff.1 h
      cases hpure
      exact ancestors_keeps _ habove
    · cases h
      rfl
  · intro m hm hhas
    have hl := hhas l List.mem_cons_self
    have hsteps : l.path.length < Taxonomy.ancestorSteps :=
      Nat.lt_succ_of_lt (path_length_lt_largest hm hl)
    unfold Label.counted
    split
    · rw [Ask.from_bind_of_ok (from_ancestors hm _ hl hsteps)]
      split
      · rfl
      · rw [List.map_cons, List.map_dropLast]
        rfl
    · rfl
  · intro m m' hhas hle
    refine List.map_congr_left fun k hk => hle.ordinalOf_eq ?_
    exact has_of_mem_counted (hhas l List.mem_cons_self) hk

/-! ## Blobs -/

/-- The blob of some categories, as their ordinals are now. -/
def categoryBlob (m : Memory) (store : Dimension.Store) (labels : List Label) : Bytes :=
  OrdinalSet.blob ((store.counted labels).map m.ordinalOf)

/-- The blob of some associations, as the ordinals of their labels are now. -/
def associationBlob (m : Memory) (values : List (Label × Association.Value)) : Bytes :=
  values.flatMap fun v => Association.record (m.ordinalOf v.1) v.2

theorem has_of_mem_store_counted {m : Memory} {store : Dimension.Store} {labels : List Label}
    (h : ∀ l ∈ labels, m.Has l) {k : Label} (hk : k ∈ store.counted labels) : m.Has k := by
  obtain ⟨l, hl, hkl⟩ := List.mem_flatMap.1 hk
  exact has_of_mem_counted (h l hl) hkl

theorem ordinals_nonneg {m : Memory} (hm : m.Fits) {ls : List Label} (h : ∀ l ∈ ls, m.Has l) :
    ∀ o ∈ ls.map m.ordinalOf, 0 ≤ o := by
  intro o ho
  obtain ⟨l, hl, rfl⟩ := List.mem_map.1 ho
  exact Int32.le_of_lt (ordinalOf_pos hm (h l hl))

theorem reads_categoryBlob (store : Dimension.Store) (labels : List Label) :
    Reads (taxonomy.categoryBlob store labels) labels fun m => m.categoryBlob store labels := by
  have hall := Reads.mapM (fun l => reads_ordinalsOf (store.get l.dimension) l) labels
  rw [List.flatMap_singleton'] at hall
  have hflat : ∀ m : Memory, (labels.map fun l =>
      (l.counted (store.get l.dimension)).map m.ordinalOf).flatten =
        (store.counted labels).map m.ordinalOf := by
    intro m
    rw [Dimension.Store.counted, List.map_flatMap, List.flatMap_def]
  refine hall.then_pure ?_ ?_ ?_
  · intro ordinals m m' blob h
    split at h
    · cases h
      rfl
    · cases h
  · intro m hm hhas
    have hcounted : ∀ k ∈ store.counted labels, m.Has k := fun k hk =>
      has_of_mem_store_counted hhas hk
    have hnonneg := ordinals_nonneg hm hcounted
    rw [hflat, OrdinalSet.encode_eq_blob hnonneg]
    rfl
  · intro m m' hhas hle
    refine congrArg OrdinalSet.blob (List.map_congr_left fun k hk => hle.ordinalOf_eq ?_)
    exact has_of_mem_store_counted hhas hk

theorem reads_associationBlob (values : List (Label × Association.Value)) :
    Reads (taxonomy.associationBlob values) (values.map (·.1)) fun m =>
      m.associationBlob values := by
  have hall := Reads.mapM (fun v : Label × Association.Value =>
    (reads_addCategory v.1).map fun o => Association.record o v.2) values
  rw [← List.map_eq_flatMap] at hall
  exact hall.map List.flatten

/-! ## Documents -/

/-- What the facets of a document are resolved into, as the ordinals are now. -/
def addition (m : Memory) (store : Dimension.Store) (d : Document) : Addition :=
  store.addition d
    ((store.routeCategories d).map fun group =>
      ⟨group.1, .binary (m.categoryBlob store group.2)⟩)
    ((store.routeAssociations d).map fun group =>
      ⟨group.1, .binary (m.associationBlob group.2)⟩)

theorem reads_resolve (store : Dimension.Store) (d : Document) :
    Reads (taxonomy.resolve store d) (store.asked d) fun m => m.addition store d := by
  have hcategories := Reads.mapM (fun group : String × List Label =>
    (reads_categoryBlob store group.2).map fun blob =>
      CountingField.mk group.1 (.binary blob)) (store.routeCategories d)
  have hassociations := Reads.mapM (fun group : String × List (Label × Association.Value) =>
    (reads_associationBlob group.2).map fun blob =>
      CountingField.mk group.1 (.binary blob)) (store.routeAssociations d)
  exact hcategories.seq hassociations (store.addition d)

/-- Resolving a document over a taxonomy in memory adds the labels it asks for, in this order. -/
theorem eq_addAll_of_resolve {store : Dimension.Store} {d : Document} {m m' : Memory}
    {memo : Memo} {added : Addition}
    (h : (taxonomy.memoised.resolve store d).from (m, {}) = (.ok added, m', memo)) :
    m' = m.addAll (store.asked d) :=
  (reads_resolve store d).adds (steady.from_resolve_of_memoised h)

/-- It succeeds as long as there are ordinals for the labels, and gives what is read off the
taxonomy in the end. -/
theorem resolve_eq {m : Memory} (store : Dimension.Store) (d : Document)
    (h : (m.addAll (store.asked d)).Fits) :
    ∃ memo, (taxonomy.memoised.resolve store d).from (m, {}) =
      (.ok ((m.addAll (store.asked d)).addition store d), m.addAll (store.asked d), memo) := by
  obtain ⟨memo, hplain⟩ := steady.from_resolve_memoised store d m
  rw [(reads_resolve store d).succeeds h] at hplain
  exact ⟨memo, hplain⟩

end Memory

namespace Indexer

variable {ix : Indexer} {m : Memory} {d : Document}

/-- An admitted document is built, as long as there are ordinals for its labels. -/
theorem build_memory_of_examine_ok {kinds : KindTable}
    (hexamine : d.examine ix.settings ix.kinds = .ok kinds)
    (hfits : (m.addAll (ix.settings.asked d)).Fits) :
    ix.build Memory.taxonomy m d =
      (.ok ⟨d, (m.addAll (ix.settings.asked d)).addition ix.settings d⟩, ix.track kinds,
        m.addAll (ix.settings.asked d)) := by
  obtain ⟨memo, hresolve⟩ := Memory.resolve_eq ix.settings d hfits
  exact build_of_resolve_ok hexamine hresolve

/-- The same without the kinds: of a document with known facets both conditions can be computed. -/
theorem exists_build_memory (ix : Indexer) (m : Memory) (d : Document)
    (hexamine : ∃ kinds, d.examine ix.settings ix.kinds = .ok kinds)
    (hfits : (m.addAll (ix.settings.asked d)).Fits) :
    ∃ ix', ix.build Memory.taxonomy m d =
      (.ok ⟨d, (m.addAll (ix.settings.asked d)).addition ix.settings d⟩, ix',
        m.addAll (ix.settings.asked d)) := by
  obtain ⟨kinds, hexamine⟩ := hexamine
  exact ⟨_, build_memory_of_examine_ok hexamine hfits⟩

/-- What a built document adds is read off the taxonomy that it leaves. -/
theorem added_of_build_memory {ix' : Indexer} {m' : Memory} {b : Built}
    (h : ix.build Memory.taxonomy m d = (.ok b, ix', m')) (hfits : m'.Fits) :
    m' = m.addAll (ix.settings.asked d) ∧ b.added = m'.addition ix.settings d := by
  obtain ⟨kinds, memo, hexamine, hresolve, _, _⟩ := build_eq_ok h
  have hm' := Memory.eq_addAll_of_resolve hresolve
  rw [build_memory_of_examine_ok hexamine (hm' ▸ hfits), ← hm'] at h
  cases h
  exact ⟨hm', rfl⟩

end Indexer

end FacetIndex
