/-
  Proofs/Routing.lean --- what goes to one field.

  WHAT THIS FILE IS FOR.  Facets are kept in groups, one for each index field that
  any of them go to.  Every field has at most one group.  So whatever is made of the
  groups one after the other, the part under the name of a field is what was made of
  the elements that go to this field.

  WHAT IS PROVED.

      Routing.nodup_names             no field comes twice
      Routing.mem_byField             the group of a field has everything that goes
                                      there
      Routing.filter_flatMap_byField  the part under the name of a field
      Routing.mem_flatMap_byField     what is made of the groups is made of the
                                      elements

  WHAT IS NOT SAID.  In which order the fields come: `Proofs/Streams.lean`.
-/
import FacetIndex.Routing

set_option autoImplicit false

namespace FacetIndex.Routing

variable {α β : Type}

theorem nodup_names (xs : List String) : (names xs).Nodup :=
  (pairwise_names xs).imp fun h => Std.ne_of_lt h

theorem filter_flatMap_of_nodup (key : β → String) (f : String → List β)
    (hkey : ∀ name, ∀ b ∈ f name, key b = name) (field : String) {ns : List String}
    (hns : ns.Nodup) :
    (ns.flatMap f).filter (key · = field) = if field ∈ ns then f field else [] := by
  induction ns with
  | nil => rfl
  | cons n ns ih =>
    obtain ⟨hn, hns⟩ := List.nodup_cons.1 hns
    rw [List.flatMap_cons, List.filter_append, ih hns]
    by_cases heq : field = n
    · subst heq
      have hall : (f field).filter (key · = field) = f field :=
        List.filter_eq_self.2 fun b hb => decide_eq_true (hkey field b hb)
      rw [hall, if_neg hn, if_pos List.mem_cons_self, List.append_nil]
    · have hnone : (f n).filter (key · = field) = [] := by
        refine List.filter_eq_nil_iff.2 fun b hb => ?_
        rw [hkey n b hb, decide_eq_true_eq]
        exact Ne.symm heq
      simp only [hnone, List.nil_append, List.mem_cons, heq, false_or]

/-- What is made of the groups, restricted to the name of a field that has a group. -/
theorem filter_flatMap_byField_of_mem (key : β → String) (f : String → List α → List β)
    (hkey : ∀ name ys, ∀ b ∈ f name ys, key b = name) {route : α → String} {xs : List α}
    {field : String} (h : field ∈ xs.map route) :
    ((byField route xs).flatMap fun group => f group.1 group.2).filter (key · = field) =
      f field (xs.filter (route · = field)) := by
  rw [byField, List.flatMap_map, filter_flatMap_of_nodup key _ (fun name => hkey name _) field
    (nodup_names _), if_pos (mem_names.2 h)]

/-- The same for any field, when nothing is made of no elements. -/
theorem filter_flatMap_byField (key : β → String) (f : String → List α → List β)
    (hkey : ∀ name ys, ∀ b ∈ f name ys, key b = name) (hnil : ∀ name, f name [] = [])
    (route : α → String) (xs : List α) (field : String) :
    ((byField route xs).flatMap fun group => f group.1 group.2).filter (key · = field) =
      f field (xs.filter (route · = field)) := by
  by_cases h : field ∈ xs.map route
  · exact filter_flatMap_byField_of_mem key f hkey h
  · have hempty : xs.filter (route · = field) = [] := by
      refine List.filter_eq_nil_iff.2 fun x hx => ?_
      rw [decide_eq_true_eq]
      exact fun heq => h (List.mem_map.2 ⟨x, hx, heq⟩)
    rw [byField, List.flatMap_map, filter_flatMap_of_nodup key _ (fun name => hkey name _) field
      (nodup_names _), if_neg (fun hmem => h (mem_names.1 hmem)), hempty, hnil]

/-- The group of a field that something goes to has everything that goes there. -/
theorem mem_byField {route : α → String} {xs : List α} {group : String × List α} :
    group ∈ byField route xs ↔
      group.1 ∈ xs.map route ∧ group.2 = xs.filter (route · = group.1) := by
  unfold byField
  rw [List.mem_map]
  constructor
  · rintro ⟨name, hname, rfl⟩
    exact ⟨mem_names.1 hname, rfl⟩
  · rintro ⟨hname, hgroup⟩
    exact ⟨group.1, mem_names.2 hname, Prod.ext rfl hgroup.symm⟩

/-- The groups stand under the distinct names of the fields. -/
theorem map_fst_byField (route : α → String) (xs : List α) :
    (byField route xs).map (·.1) = names (xs.map route) := by
  rw [byField, List.map_map]
  exact List.map_id _

/-- Every element goes somewhere. -/
theorem mem_flatMap_byField {route : α → String} {xs : List α} {x : α} :
    x ∈ (byField route xs).flatMap (fun group => group.2) ↔ x ∈ xs := by
  simp only [byField, List.flatMap_map, List.mem_flatMap, mem_names, List.mem_filter,
    decide_eq_true_eq]
  constructor
  · rintro ⟨_, _, hx, _⟩
    exact hx
  · intro hx
    exact ⟨route x, List.mem_map_of_mem hx, hx, rfl⟩

end FacetIndex.Routing
