/-
  Proofs/StoredSettings.lean --- stored settings are read back.

  WHAT THIS FILE IS FOR.  What is stored of a store is its entries, and a store is
  made up by its entries.  Names of dimensions and of index fields may be any
  strings: they are written as JSON texts, which are read back whatever characters
  they have.

  WHAT IS PROVED.

      Dimension.Settings.ofJson?_toJson    the settings of one dimension
      Dimension.Store.toList_ofList_toList
                                           a store that is made from the entries of
                                           another has the same entries
      Dimension.Store.load_save            a store is read back from its stored form,
                                           the same dimensions in the same order and
                                           each with the same settings

  WHAT IS NOT SAID.  Other texts can be loaded, too: entries in another order, or
  with settings left out.  Nothing is claimed of them.
-/
import FacetIndex.Dimension.Stored
import FacetIndex.Proofs.Json

set_option autoImplicit false

namespace FacetIndex

namespace Json

theorem numerals_record (members : List (String × Json)) :
    (record members).numerals = members.flatMap fun m => m.2.numerals := by
  rw [record, numerals]
  induction members with
  | nil => rfl
  | cons member members ih => rw [List.map_cons, memberNumerals, ih, List.flatMap_cons]

/-- Members are read back if their values are. -/
theorem asMembers?_record {α : Type} {write : α → Json} {read : Json → Option α}
    (h : ∀ x, read (write x) = some x) (entries : List (String × α)) :
    asMembers? read (record (entries.map fun e => (e.1, write e.2))) = some entries := by
  rw [record, asMembers?]
  induction entries with
  | nil => rfl
  | cons entry entries ih =>
    simp only [List.map_cons, List.mapM_cons, h, ih]
    rfl

end Json

namespace Dimension

/-- All four settings are written, so that no default is used. -/
theorem Settings.ofJson?_toJson (s : Settings) : ofJson? s.toJson = some s := rfl

theorem Settings.numerals_toJson (s : Settings) : s.toJson.numerals = [] := by
  rw [toJson, Json.numerals_record]
  rfl

namespace Store

theorem entries_ofList (entries : List (String × Settings)) :
    (ofList entries).entries = entries.foldl (fun t e => t.insert e.1 e.2) ∅ :=
  (List.foldl_hom Store.entries (fun _ _ => rfl)).symm

/-- A store is made up by its entries. -/
theorem find?_ofList_toList (store : Store) (dimension : String) :
    (ofList store.toList).find? dimension = store.find? dimension := by
  have hequiv : Std.TreeMap.Equiv (Std.TreeMap.ofList store.entries.toList)
      (ofList store.toList).entries := by
    rw [entries_ofList]
    exact Std.TreeMap.ofList_equiv_foldl
  rw [find?, find?, ← hequiv.getElem?_eq]
  cases hentry : store.entries[dimension]? with
  | some settings =>
    exact Std.TreeMap.getElem?_ofList_of_mem Std.ReflCmp.compare_self
      Std.TreeMap.distinct_keys_toList (Std.TreeMap.mem_toList_iff_getElem?_eq_some.2 hentry)
  | none =>
    have habsent : dimension ∉ store.entries := by
      rw [Std.TreeMap.mem_iff_isSome_getElem?, hentry]
      exact Bool.false_ne_true
    exact Std.TreeMap.getElem?_ofList_of_contains_eq_false (by simpa using habsent)

theorem toList_ofList_toList (store : Store) : (ofList store.toList).toList = store.toList :=
  (Std.TreeMap.Equiv.of_forall_constGet?_eq store.find?_ofList_toList).toList_eq

theorem ofString?_save (store : Store) : Json.ofString? store.save = some store.toJson := by
  have hnumerals : store.toJson.numerals = [] := by
    rw [toJson, Json.numerals_record, List.flatMap_map]
    simp [Settings.numerals_toJson]
  refine Json.ofString?_render (some 0) fun n hn => ?_
  rw [hnumerals] at hn
  exact absurd hn List.not_mem_nil

/-- The settings of a store are read back from their stored form: the same dimensions, in the same
order and each with the same settings. -/
theorem load_save (store : Store) :
    ∃ loaded, load store.save = .ok loaded ∧ loaded.toList = store.toList ∧
      ∀ dimension, loaded.find? dimension = store.find? dimension ∧
        loaded.get dimension = store.get dimension := by
  have hread : (Json.ofString? store.save).bind (Json.asMembers? Settings.ofJson?) =
      some store.toList := by
    rw [ofString?_save, Option.bind_some]
    exact Json.asMembers?_record Settings.ofJson?_toJson store.toList
  refine ⟨ofList store.toList, ?_, store.toList_ofList_toList, fun dimension => ?_⟩
  · rw [load, hread]
  · have hfind := store.find?_ofList_toList dimension
    exact ⟨hfind, congrArg (·.getD {}) hfind⟩

end Store

end Dimension

end FacetIndex
