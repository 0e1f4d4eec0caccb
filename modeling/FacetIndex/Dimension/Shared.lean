import FacetIndex.Dimension

set_option autoImplicit false

/-!
# Settings that are handed out

Whoever asks for the settings of a dimension is given an object that holds them, and may keep it.  A
change touches no object: it makes a new one from the settings of the old one and puts it in its
place.  All dimensions about which nothing was said share one object, which holds the default
settings.
-/

namespace FacetIndex.Dimension

/-- A settings object, told from all others by the place at which it was made. -/
structure Handle where
  /-- How many objects were made before. -/
  place : Nat
  deriving DecidableEq, Repr, Inhabited

/-- The object that all dimensions share about which nothing was said. -/
def Handle.standard : Handle := ⟨0⟩

/-- A store that hands out its settings as objects. -/
structure SharedStore where
  /-- What the objects hold, in the order in which they were made. -/
  objects : Array Settings
  /-- The objects of the dimensions about which something was said. -/
  entries : Std.TreeMap String Handle
  /-- The first object holds the default settings. -/
  standard_default : objects[0]? = some ({} : Settings)
  /-- The object of a dimension was made, and not to be shared. -/
  made : ∀ (dimension : String) (h : Handle), entries[dimension]? = some h →
    0 < h.place ∧ h.place < objects.size

namespace SharedStore

/-- The store in which nothing was said. -/
def empty : SharedStore where
  objects := #[{}]
  entries := ∅
  standard_default := rfl
  made := by simp

/-- The object that is handed out for a dimension. -/
def get (store : SharedStore) (dimension : String) : Handle :=
  (store.entries[dimension]?).getD .standard

/-- What an object holds. -/
def settings (store : SharedStore) (h : Handle) : Settings := (store.objects[h.place]?).getD {}

theorem size_objects_pos (store : SharedStore) : 0 < store.objects.size :=
  (Array.getElem?_eq_some_iff.1 store.standard_default).1

/-- Makes an object with these settings and puts it in the place of the one of the dimension. -/
def put (store : SharedStore) (dimension : String) (settings : Settings) : SharedStore where
  objects := store.objects.push settings
  entries := store.entries.insert dimension ⟨store.objects.size⟩
  standard_default := by
    rw [Array.getElem?_push, if_neg (Nat.ne_of_lt store.size_objects_pos)]
    exact store.standard_default
  made other h hentry := by
    rw [Std.TreeMap.getElem?_insert] at hentry
    rw [Array.size_push]
    split at hentry
    · cases hentry
      exact ⟨store.size_objects_pos, Nat.lt_succ_self _⟩
    · exact (store.made other h hentry).imp id Nat.lt_succ_of_lt

/-- Changes the settings of a dimension, starting from the default ones where nothing was said. -/
def change (store : SharedStore) (dimension : String) (c : Change) : SharedStore :=
  store.put dimension (c.apply (store.settings (store.get dimension)))

/-- The settings of the dimensions about which something was said, without the objects. -/
def toStore (store : SharedStore) : Store := ⟨store.entries.map fun _ h => store.settings h⟩

/-- The dimensions about which something was said, in ascending order, with their settings. -/
def snapshot (store : SharedStore) : List (String × Settings) := store.toStore.toList

@[simp] theorem settings_standard (store : SharedStore) : store.settings .standard = {} := by
  rw [settings, Handle.standard, store.standard_default, Option.getD_some]

/-- The objects that were made before hold what they held. -/
theorem settings_put_of_lt {store : SharedStore} {h : Handle} (hh : h.place < store.objects.size)
    (dimension : String) (settings : Settings) :
    (store.put dimension settings).settings h = store.settings h := by
  rw [SharedStore.settings, put, Array.getElem?_push, if_neg (Nat.ne_of_lt hh),
    SharedStore.settings]

theorem settings_put_new (store : SharedStore) (dimension : String) (settings : Settings) :
    (store.put dimension settings).settings ⟨store.objects.size⟩ = settings := by
  rw [SharedStore.settings, put, Array.getElem?_push, if_pos rfl, Option.getD_some]

/-- What is handed out for a dimension is an object that was made. -/
theorem place_get_lt (store : SharedStore) (dimension : String) :
    (store.get dimension).place < store.objects.size := by
  unfold get
  cases hentry : store.entries[dimension]? with
  | none => exact store.size_objects_pos
  | some h => exact (store.made dimension h hentry).2

theorem find?_toStore (store : SharedStore) (dimension : String) :
    store.toStore.find? dimension = (store.entries[dimension]?).map store.settings := by
  rw [Store.find?, toStore, Std.TreeMap.getElem?_map]

/-- A dimension has the settings that its object holds. -/
theorem get_toStore (store : SharedStore) (dimension : String) :
    store.toStore.get dimension = store.settings (store.get dimension) := by
  rw [Store.get, find?_toStore, get]
  cases store.entries[dimension]? with
  | none => exact store.settings_standard.symm
  | some h => rfl

/-- Handing out objects makes no difference to the settings. -/
theorem find?_toStore_change (store : SharedStore) (dimension other : String) (c : Change) :
    (store.change dimension c).toStore.find? other =
      (store.toStore.change dimension c).find? other := by
  rw [Store.change, Store.find?_set, get_toStore, find?_toStore, find?_toStore, change, put,
    Std.TreeMap.getElem?_insert]
  simp only [Std.LawfulEqCmp.compare_eq_iff_eq]
  split
  · exact congrArg some (store.settings_put_new dimension _)
  · cases hentry : store.entries[other]? with
    | none => rfl
    | some h => exact congrArg some (settings_put_of_lt (store.made other h hentry).2 _ _)

end SharedStore

end FacetIndex.Dimension
