/-
  Proofs/Agreement.lean --- settings that agree on a document.

  WHAT THIS FILE IS FOR.  Of the settings, a document reads those of its own
  dimensions and no others.  So two stores that agree on these (`Agree`) cannot be
  told apart by it.

  WHAT IS PROVED.

      Agree.examine_eq           the document is judged alike
      Agree.routeCategories_eq   its categories go to the same index fields;
                                 likewise for members and associations
      Agree.dialogue_eq          it asks the same questions in the same order
      Agree.resolve_eq           so any taxonomy resolves it in the same way

  A change to the settings of another dimension keeps the agreement
  (`agree_change`), which is how `Proofs/Replay.lean` comes to use it.

  WHAT IS NOT SAID.  Nothing about stores that differ on a dimension of the
  document; `Proofs/Widening.lean` is about one way of differing there.
-/
import FacetIndex.Proofs.Dialogue
import FacetIndex.Proofs.Routing

set_option autoImplicit false

namespace FacetIndex

/-! ## What a document has in its dimensions -/

namespace Document

variable {d : Document}

/-- What is picked from a facet is on the dimension of the facet. -/
theorem exists_facet_of_mem_filterMap {α : Type} {pick : Facet → Option α}
    (dimension : α → String) (hpick : ∀ f x, pick f = some x → f.dimension = dimension x) {x : α}
    (h : x ∈ d.facets.filterMap pick) : ∃ f ∈ d.facets, f.dimension = dimension x := by
  obtain ⟨f, hf, hx⟩ := List.mem_filterMap.1 h
  exact ⟨f, hf, hpick f x hx⟩

theorem exists_facet_of_mem_categories {label : Label} (h : label ∈ d.categories) :
    ∃ f ∈ d.facets, f.dimension = label.dimension :=
  exists_facet_of_mem_filterMap (·.dimension) (fun f _ hf => by cases f <;> cases hf; rfl) h

theorem exists_facet_of_mem_members {m : String × String} (h : m ∈ d.members) :
    ∃ f ∈ d.facets, f.dimension = m.1 :=
  exists_facet_of_mem_filterMap (·.1) (fun f _ hf => by cases f <;> cases hf; rfl) h

theorem exists_facet_of_mem_associations {a : Label × Association.Value}
    (h : a ∈ d.associations) : ∃ f ∈ d.facets, f.dimension = a.1.dimension :=
  exists_facet_of_mem_filterMap (·.1.dimension) (fun f _ hf => by cases f <;> cases hf; rfl) h

end Document

theorem Routing.byField_congr {α : Type} {route route' : α → String} {xs : List α}
    (h : ∀ x ∈ xs, route x = route' x) : byField route xs = byField route' xs := by
  unfold byField
  rw [List.map_congr_left h]
  refine List.map_congr_left fun name _ => ?_
  rw [List.filter_congr fun x hx => by rw [h x hx]]

theorem Dialogue.each_congr {α β : Type} {f g : α → Dialogue β} {xs : List α}
    (h : ∀ x ∈ xs, f x = g x) : each f xs = each g xs := by
  induction xs with
  | nil => rfl
  | cons x xs ih =>
    rw [each, each, h x List.mem_cons_self, ih fun y hy => h y (List.mem_cons_of_mem x hy)]

namespace Dimension.Store

/-- Two stores say the same of the dimensions of a document. -/
def Agree (d : Document) (a b : Store) : Prop :=
  ∀ f ∈ d.facets, a.get f.dimension = b.get f.dimension

variable {d : Document} {a b : Store}

theorem Agree.refl (d : Document) (a : Store) : Agree d a a := fun _ _ => rfl

theorem Agree.trans {c : Store} (hab : Agree d a b) (hbc : Agree d b c) : Agree d a c :=
  fun f hf => (hab f hf).trans (hbc f hf)

/-- A change to a dimension that the document does not use. -/
theorem agree_change {dimension : String} (h : ∀ f ∈ d.facets, f.dimension ≠ dimension)
    (a : Store) (c : Change) : Agree d a (a.change dimension c) := by
  intro f hf
  rw [get_change, if_neg (h f hf).symm]

theorem Agree.get_eq (h : Agree d a b) {dimension : String}
    (hd : ∃ f ∈ d.facets, f.dimension = dimension) : a.get dimension = b.get dimension := by
  obtain ⟨f, hf, rfl⟩ := hd
  exact h f hf

/-! ## Admission -/

theorem examineAll_congr {tracked : KindTable} {fs : List Facet}
    (h : ∀ f ∈ fs, ∀ admission : Admission,
      admission.examine a tracked f = admission.examine b tracked f) (admission : Admission) :
    admission.examineAll a tracked fs = admission.examineAll b tracked fs := by
  induction fs generalizing admission with
  | nil => rfl
  | cons f fs ih =>
    rw [Admission.examineAll, Admission.examineAll, h f List.mem_cons_self]
    cases admission.examine b tracked f with
    | error violation => rfl
    | ok a' => exact ih (fun g hg => h g (List.mem_cons_of_mem f hg)) a'

/-- The documents before it apart, a document is judged by the settings of its dimensions. -/
theorem Agree.examine_eq (h : Agree d a b) (tracked : KindTable) :
    d.examine a tracked = d.examine b tracked := by
  rw [Document.examine, Document.examine, examineAll_congr]
  intro f hf admission
  have hget := h f hf
  cases f <;> simp only [Facet.dimension] at hget <;> simp only [Admission.examine, hget]

/-! ## Resolution -/

theorem Agree.routeCategories_eq (h : Agree d a b) : a.routeCategories d = b.routeCategories d :=
  Routing.byField_congr fun label hlabel => by
    rw [fieldOf, fieldOf, h.get_eq (Document.exists_facet_of_mem_categories hlabel)]

theorem Agree.routeMembers_eq (h : Agree d a b) : a.routeMembers d = b.routeMembers d :=
  Routing.byField_congr fun m hm => by
    rw [h.get_eq (Document.exists_facet_of_mem_members hm)]

theorem Agree.routeAssociations_eq (h : Agree d a b) :
    a.routeAssociations d = b.routeAssociations d :=
  Routing.byField_congr fun v hv => by
    rw [fieldOf, fieldOf, h.get_eq (Document.exists_facet_of_mem_associations hv)]

/-- The document asks the same questions, and makes the same of the answers. -/
theorem Agree.dialogue_eq (h : Agree d a b) : Dialogue.resolve a d = Dialogue.resolve b d := by
  have hblobs : Dialogue.blobs (Dialogue.categoryBlob a) (b.routeCategories d) =
      Dialogue.blobs (Dialogue.categoryBlob b) (b.routeCategories d) := by
    refine Dialogue.each_congr fun group hgroup => ?_
    have hordinals : ∀ label ∈ group.2,
        Dialogue.ordinalsOf (a.get label.dimension) label =
          Dialogue.ordinalsOf (b.get label.dimension) label := by
      intro label hlabel
      rw [(Routing.mem_byField.1 hgroup).2] at hlabel
      have hcategory := (List.mem_filter.1 hlabel).1
      rw [h.get_eq (Document.exists_facet_of_mem_categories hcategory)]
    rw [Dialogue.categoryBlob, Dialogue.categoryBlob, Dialogue.each_congr hordinals]
  have haddition : a.addition d = b.addition d := by
    funext categoryBlobs associationBlobs
    rw [addition, addition, terms, terms, memberFields, memberFields, h.routeCategories_eq,
      h.routeMembers_eq]
  rw [Dialogue.resolve, Dialogue.resolve, h.routeCategories_eq, h.routeAssociations_eq, hblobs,
    haddition]

theorem Agree.resolve_eq {σ : Type} (h : Agree d a b) (t : Taxonomy σ) :
    t.resolve a d = t.resolve b d := by
  rw [← Dialogue.run_resolve, h.dialogue_eq, Dialogue.run_resolve]

end Dimension.Store

end FacetIndex
