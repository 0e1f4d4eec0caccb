/-
  Proofs/SettingsHistory.lean --- settings over time.

  WHAT THIS FILE IS FOR.  After any calls that change settings, each setting of a
  dimension has the value that was written to it last, or its default if none was
  written.  `Settings.value` names a single setting, and `written` lists the values
  that calls wrote to it, so that this can be said of all settings at once.

  WHAT IS PROVED.

      Store.value_get_after           the last value that was written
      Reordered.written_eq            calls that write no common setting of a common
                                      dimension can change places
      SharedStore.find?_toStore_after
                                      a store that hands out shared objects has the
                                      entries of one that has no objects
      settings_of_calls               all of this for a store with objects.  Those
                                      that were handed out hold what they held, and
                                      the object of the default settings is handed
                                      out for exactly the dimensions that no call
                                      named

  WHAT IS NOT SAID.  Calls come one after the other; there are no threads here.
-/
import Mathlib.Data.List.Basic
import FacetIndex.Dimension.Shared
import FacetIndex.Proofs.StoredSettings

set_option autoImplicit false

namespace FacetIndex.Dimension

/-! ## Single settings -/

/-- One of the settings of a dimension. -/
inductive Setting where
  /-- Whether paths may have several components. -/
  | hierarchical
  /-- Whether a document may have several values. -/
  | multiValued
  /-- Whether the dimension itself is counted. -/
  | requireCount
  /-- The index field. -/
  | indexField
  deriving DecidableEq, Repr, Inhabited

/-- The values that a setting can have. -/
abbrev Setting.Value : Setting → Type
  | .hierarchical => Bool
  | .multiValued => Bool
  | .requireCount => Bool
  | .indexField => String

/-- The value of a setting. -/
def Settings.value (s : Settings) : (setting : Setting) → setting.Value
  | .hierarchical => s.hierarchical
  | .multiValued => s.multiValued
  | .requireCount => s.requireCount
  | .indexField => s.indexField

theorem Settings.ext_value {a b : Settings} (h : ∀ setting, a.value setting = b.value setting) :
    a = b := by
  obtain ⟨hierarchical, multiValued, requireCount, indexField⟩ := a
  obtain rfl : hierarchical = b.hierarchical := h .hierarchical
  obtain rfl : multiValued = b.multiValued := h .multiValued
  obtain rfl : requireCount = b.requireCount := h .requireCount
  obtain rfl : indexField = b.indexField := h .indexField
  rfl

/-- The value that a change writes to a setting, if it writes one. -/
def Change.value? : Change → (setting : Setting) → Option setting.Value
  | .hierarchical on, .hierarchical => some on
  | .multiValued on, .multiValued => some on
  | .requireCount on, .requireCount => some on
  | .indexField name, .indexField => some name
  | .all settings, setting => some (settings.value setting)
  | _, _ => none

/-- A change writes some settings and leaves the others as they are. -/
theorem Change.value_apply (c : Change) (s : Settings) (setting : Setting) :
    (c.apply s).value setting = (c.value? setting).getD (s.value setting) := by
  cases c <;> cases setting <;> rfl

/-! ## Calls -/

/-- A call that changes the settings of a dimension. -/
structure Call where
  /-- The dimension. -/
  dimension : String
  /-- What is said about it. -/
  change : Change
  deriving DecidableEq, Repr, Inhabited

/-- The value that a call writes to a setting of a dimension, if it writes one. -/
def Call.value? (call : Call) (dimension : String) (setting : Setting) : Option setting.Value :=
  if call.dimension = dimension then call.change.value? setting else none

/-- A call writes a setting of a dimension. -/
def Call.writes (call : Call) (dimension : String) (setting : Setting) : Bool :=
  (call.value? dimension setting).isSome

/-- The values that calls write to a setting of a dimension, in order. -/
def written (calls : List Call) (dimension : String) (setting : Setting) : List setting.Value :=
  calls.filterMap (·.value? dimension setting)

/-- The store after some calls. -/
def Store.after (store : Store) (calls : List Call) : Store :=
  calls.foldl (fun s call => s.change call.dimension call.change) store

/-- The store after some calls, with the objects that were made for them. -/
def SharedStore.after (store : SharedStore) (calls : List Call) : SharedStore :=
  calls.foldl (fun s call => s.change call.dimension call.change) store

namespace Store

theorem value_get_change (store : Store) (call : Call) (dimension : String) (setting : Setting) :
    ((store.change call.dimension call.change).get dimension).value setting =
      (call.value? dimension setting).getD ((store.get dimension).value setting) := by
  rw [get_change, Call.value?]
  split
  · exact Change.value_apply _ _ setting
  · rfl

/-- A setting has the value that was written to it last. -/
theorem value_get_after (calls : List Call) (store : Store) (dimension : String)
    (setting : Setting) :
    ((store.after calls).get dimension).value setting =
      ((written calls dimension setting).getLast?).getD ((store.get dimension).value setting) := by
  induction calls generalizing store with
  | nil => rfl
  | cons call calls ih =>
    have hlater := ih (store.change call.dimension call.change)
    rw [value_get_change] at hlater
    rw [after, List.foldl_cons, ← after, hlater, written, written, List.filterMap_cons]
    cases call.value? dimension setting with
    | none => rfl
    | some value => rw [List.getLast?_cons]; rfl

theorem find?_change_eq_none_iff {store : Store} {dimension other : String} {c : Change} :
    (store.change dimension c).find? other = none ↔
      dimension ≠ other ∧ store.find? other = none := by
  rw [change, find?_set]
  split
  next h => exact iff_of_false (Option.some_ne_none _) fun hne => hne.1 h
  next h => exact (and_iff_right h).symm

theorem find?_change_congr {a b : Store} (h : ∀ dimension, a.find? dimension = b.find? dimension)
    (dimension : String) (c : Change) (other : String) :
    (a.change dimension c).find? other = (b.change dimension c).find? other := by
  rw [change, change, find?_set, find?_set, get, get, h, h]

/-- Nothing is said about the dimensions that no call names. -/
theorem find?_after_eq_none_iff {calls : List Call} {store : Store} {dimension : String} :
    (store.after calls).find? dimension = none ↔
      (∀ call ∈ calls, call.dimension ≠ dimension) ∧ store.find? dimension = none := by
  induction calls generalizing store with
  | nil => exact (and_iff_right fun call hcall => absurd hcall List.not_mem_nil).symm
  | cons call calls ih =>
    rw [after, List.foldl_cons, ← after, ih, find?_change_eq_none_iff, List.forall_mem_cons,
      ← and_assoc, and_comm (a := ∀ call ∈ calls, _)]

/-- Two stores that say the same of every dimension have the same entries. -/
theorem toList_eq_of_find?_eq {a b : Store}
    (h : ∀ dimension, a.find? dimension = b.find? dimension) :
    a.toList = b.toList :=
  (Std.TreeMap.Equiv.of_forall_constGet?_eq h).toList_eq

theorem find?_eq_of_get_eq {a b : Store} {dimension : String}
    (hnone : a.find? dimension = none ↔ b.find? dimension = none)
    (hget : a.get dimension = b.get dimension) : a.find? dimension = b.find? dimension := by
  unfold get at hget
  cases ha : a.find? dimension with
  | none => exact (hnone.1 ha).symm
  | some settings =>
    cases hb : b.find? dimension with
    | none => rw [hnone.2 hb] at ha; cases ha
    | some settings' => rw [ha, hb] at hget; exact congrArg some hget

theorem mem_toList_iff {store : Store} {dimension : String} {settings : Settings} :
    (dimension, settings) ∈ store.toList ↔
      store.find? dimension ≠ none ∧ settings = store.get dimension := by
  rw [toList, Std.TreeMap.mem_toList_iff_getElem?_eq_some, get, ← find?]
  cases store.find? dimension with
  | none => exact iff_of_false (Option.some_ne_none _).symm fun h => h.1 rfl
  | some entry => simp [eq_comm]

/-- The dimensions of the entries ascend. -/
theorem pairwise_dimensions (store : Store) :
    (store.toList.map Prod.fst).Pairwise (· < ·) := by
  have hordered : store.toList.Pairwise fun a b => compare a.1 b.1 = .lt :=
    Std.TreeMap.ordered_keys_toList
  exact List.pairwise_map.2 (hordered.imp fun h => compareOfLessAndEq_eq_lt.1 h)

end Store

/-! ## Calls in another order -/

/-- Two calls write a common setting of a common dimension. -/
def Call.Meets (a b : Call) : Prop :=
  a.dimension = b.dimension ∧
    ∃ setting, (a.change.value? setting).isSome ∧ (b.change.value? setting).isSome

/-- The same calls in another order: each has its place among the first calls, and of two calls that
meet the one that came first still does. -/
def Reordered (calls later : List Call) : Prop :=
  ∃ placed : List (Call × Nat), placed.Perm calls.zipIdx ∧ placed.map Prod.fst = later ∧
    placed.Pairwise fun a b => a.1.Meets b.1 → a.2 < b.2

/-- Calls that write the same setting meet. -/
theorem Call.meets_of_writes {a b : Call} {dimension : String} {setting : Setting}
    (ha : a.writes dimension setting) (hb : b.writes dimension setting) : a.Meets b := by
  unfold Call.writes Call.value? at ha hb
  split at ha
  next hadim =>
    split at hb
    next hbdim => exact ⟨hadim.trans hbdim.symm, setting, ha, hb⟩
    next => cases hb
  next => cases ha

theorem written_filter_writes (calls : List Call) (dimension : String) (setting : Setting) :
    written (calls.filter (·.writes dimension setting)) dimension setting =
      written calls dimension setting := by
  rw [written, List.filterMap_filter]
  refine List.filterMap_congr fun call _ => ?_
  rw [Call.writes]
  cases call.value? dimension setting <;> rfl

theorem pairwise_zipIdx {α : Type} (xs : List α) (start : Nat) :
    (xs.zipIdx start).Pairwise fun a b => a.2 < b.2 := by
  have hplaces : ((xs.zipIdx start).map Prod.snd).Pairwise (· < ·) := by
    rw [List.zipIdx_map_snd]
    exact List.pairwise_lt_range'
  exact List.pairwise_map.1 hplaces

/-- The calls that write a setting stay in their order. -/
theorem Reordered.filter_writes {calls later : List Call} (h : Reordered calls later)
    (dimension : String) (setting : Setting) :
    later.filter (·.writes dimension setting) = calls.filter (·.writes dimension setting) := by
  obtain ⟨placed, hperm, rfl, hkept⟩ := h
  -- They meet each other, so that in both orders their places ascend.
  have hplaced : (placed.filter (·.1.writes dimension setting)).Pairwise fun a b => a.2 < b.2 := by
    refine (hkept.filter _).imp_of_mem fun {a b} ha hb hmeets => hmeets ?_
    exact Call.meets_of_writes (List.mem_filter.1 ha).2 (List.mem_filter.1 hb).2
  have hsame : placed.filter (·.1.writes dimension setting) =
      calls.zipIdx.filter (·.1.writes dimension setting) :=
    (hperm.filter _).eq_of_pairwise (fun a b _ _ hab hba => absurd hab (Nat.lt_asymm hba))
      hplaced ((pairwise_zipIdx calls 0).filter _)
  have hcalls := congrArg (List.map Prod.fst) hsame
  conv_rhs => rw [← List.zipIdx_map_fst 0 calls, List.filter_map]
  rw [List.filter_map]
  exact hcalls

/-- The values that are written to a setting are written in the same order. -/
theorem Reordered.written_eq {calls later : List Call} (h : Reordered calls later)
    (dimension : String) (setting : Setting) :
    written later dimension setting = written calls dimension setting := by
  rw [← written_filter_writes, h.filter_writes, written_filter_writes]

theorem Reordered.perm {calls later : List Call} (h : Reordered calls later) :
    later.Perm calls := by
  obtain ⟨placed, hperm, rfl, _⟩ := h
  have hcalls := hperm.map Prod.fst
  rwa [List.zipIdx_map_fst] at hcalls

/-- Calls that do not meet can change places. -/
theorem Store.toList_after_of_reordered {calls later : List Call} (h : Reordered calls later)
    (store : Store) : (store.after later).toList = (store.after calls).toList := by
  refine toList_eq_of_find?_eq fun dimension => ?_
  have hget : (store.after later).get dimension = (store.after calls).get dimension := by
    refine Settings.ext_value fun setting => ?_
    rw [value_get_after, value_get_after, h.written_eq]
  have hnone : (store.after later).find? dimension = none ↔
      (store.after calls).find? dimension = none := by
    rw [find?_after_eq_none_iff, find?_after_eq_none_iff]
    simp only [h.perm.mem_iff]
  exact find?_eq_of_get_eq hnone hget

/-! ## Objects -/

namespace SharedStore

theorem get_eq_standard_iff {store : SharedStore} {dimension : String} :
    store.get dimension = .standard ↔ store.toStore.find? dimension = none := by
  rw [find?_toStore, Option.map_eq_none_iff, get]
  cases hentry : store.entries[dimension]? with
  | none => exact iff_of_true rfl rfl
  | some h =>
    refine iff_of_false (fun hstandard => ?_) (Option.some_ne_none h)
    have hpos := (store.made dimension h hentry).1
    rw [Option.getD_some] at hstandard
    rw [hstandard] at hpos
    exact Nat.lt_irrefl 0 hpos

/-- The settings are those of a store without objects in which the same is said. -/
theorem find?_toStore_after (calls : List Call) :
    ∀ {shared : SharedStore} {store : Store},
      (∀ dimension, shared.toStore.find? dimension = store.find? dimension) →
      ∀ dimension, (shared.after calls).toStore.find? dimension =
        (store.after calls).find? dimension := by
  induction calls with
  | nil => exact fun h => h
  | cons call calls ih =>
    intro shared store h
    exact ih fun dimension =>
      (find?_toStore_change _ _ _ _).trans (Store.find?_change_congr h _ _ dimension)

/-- An object that was made holds what it held, whatever is called. -/
theorem settings_after {h : Handle} (calls : List Call) {store : SharedStore}
    (hh : h.place < store.objects.size) : (store.after calls).settings h = store.settings h := by
  induction calls generalizing store with
  | nil => rfl
  | cons call calls ih =>
    have hlater : h.place < (store.change call.dimension call.change).objects.size := by
      rw [change, put, Array.size_push]
      exact Nat.lt_succ_of_lt hh
    rw [after, List.foldl_cons, ← after, ih hlater]
    exact settings_put_of_lt hh _ _

end SharedStore

/-- What a store hands out after any calls.

Each setting of a dimension has the value that the last call wrote that writes it, or its default.
The object of the default settings is handed out for exactly those dimensions that no call named;
the entries are those of the named dimensions, in ascending order, and they are the same as without
objects.  An object that was handed out holds what it held, whatever is called later.  The same
calls in another order lead to the same entries, if calls that write a common setting of a common
dimension keep their order. -/
theorem settings_of_calls (calls : List Call) :
    let store := SharedStore.empty.after calls
    (∀ dimension setting, (store.settings (store.get dimension)).value setting =
      ((written calls dimension setting).getLast?).getD (Settings.value {} setting)) ∧
    (∀ dimension, store.get dimension = .standard ↔
      ∀ call ∈ calls, call.dimension ≠ dimension) ∧
    ((store.snapshot.map Prod.fst).Pairwise (· < ·) ∧
      (∀ dimension settings, (dimension, settings) ∈ store.snapshot ↔
        (∃ call ∈ calls, call.dimension = dimension) ∧
          settings = store.settings (store.get dimension)) ∧
      store.snapshot = (Store.after {} calls).toList) ∧
    (∀ more dimension, (store.after more).settings (store.get dimension) =
      store.settings (store.get dimension)) ∧
    ∀ later, Reordered calls later → (SharedStore.empty.after later).snapshot = store.snapshot := by
  intro store
  have hfind : ∀ dimension, store.toStore.find? dimension =
      (Store.after {} calls).find? dimension :=
    SharedStore.find?_toStore_after calls fun _ => rfl
  have hget : ∀ dimension, store.settings (store.get dimension) =
      (Store.after {} calls).get dimension := fun dimension =>
    (store.get_toStore dimension).symm.trans (congrArg (·.getD {}) (hfind dimension))
  have hsnapshot : store.snapshot = (Store.after {} calls).toList :=
    Store.toList_eq_of_find?_eq hfind
  have hunnamed : ∀ dimension, (Store.after {} calls).find? dimension = none ↔
      ∀ call ∈ calls, call.dimension ≠ dimension := fun dimension =>
    Store.find?_after_eq_none_iff.trans (and_iff_left rfl)
  refine ⟨fun dimension setting => ?_, fun dimension => ?_, ⟨?_, fun dimension settings => ?_,
    hsnapshot⟩, fun more dimension => ?_, fun later h => ?_⟩
  · rw [hget]
    exact Store.value_get_after calls {} dimension setting
  · rw [SharedStore.get_eq_standard_iff, hfind, hunnamed]
  · exact store.toStore.pairwise_dimensions
  · rw [hsnapshot, Store.mem_toList_iff, hget, ne_eq, hunnamed]
    simp only [not_forall, not_not, exists_prop]
  · exact SharedStore.settings_after more (store.place_get_lt dimension)
  · rw [hsnapshot, ← Store.toList_after_of_reordered h]
    exact Store.toList_eq_of_find?_eq (SharedStore.find?_toStore_after later fun _ => rfl)

/-- Two calls on one dimension that write different settings, and one on another dimension. -/
def tagAndDateCalls : List Call :=
  [⟨"Tag", .multiValued true⟩, ⟨"Date", .hierarchical true⟩, ⟨"Tag", .indexField "tags"⟩]

/-- All three can change places. -/
theorem settings_of_calls_tagAndDateCalls :
    Reordered tagAndDateCalls tagAndDateCalls.reverse ∧
      (SharedStore.empty.after tagAndDateCalls.reverse).snapshot =
        [("Date", ⟨true, false, false, "$facets"⟩), ("Tag", ⟨false, true, false, "tags"⟩)] := by
  have hreordered : Reordered tagAndDateCalls tagAndDateCalls.reverse := by
    have hmeets : ¬ Call.Meets ⟨"Tag", .indexField "tags"⟩ ⟨"Tag", .multiValued true⟩ := by
      rintro ⟨_, setting, hlast, hfirst⟩
      cases setting with
      | indexField => cases hfirst
      | hierarchical => cases hlast
      | multiValued => cases hlast
      | requireCount => cases hlast
    have hne : "Tag" ≠ "Date" := by decide
    have hdate : ∀ c c',
        ¬ Call.Meets ⟨"Tag", c⟩ ⟨"Date", c'⟩ ∧ ¬ Call.Meets ⟨"Date", c'⟩ ⟨"Tag", c⟩ :=
      fun c c' => ⟨fun h => hne h.1, fun h => hne h.1.symm⟩
    refine ⟨tagAndDateCalls.zipIdx.reverse, List.reverse_perm _, rfl, ?_⟩
    simp [tagAndDateCalls, hmeets, hdate]
  obtain ⟨_, _, ⟨_, _, hsnapshot⟩, _, hsame⟩ := settings_of_calls tagAndDateCalls
  refine ⟨hreordered, ?_⟩
  rw [hsame _ hreordered, hsnapshot]
  decide +kernel

end FacetIndex.Dimension
