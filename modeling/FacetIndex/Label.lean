import FacetIndex.Path

set_option autoImplicit false

/-!
# Labels

A label is the full path of a category: a dimension and the components below it, none of them
empty.  Labels are ordered component by component, and a label comes before its descendants.
-/

namespace FacetIndex

/-- The full path of a category, its dimension first. -/
structure Label where
  /-- The dimension. -/
  dimension : String
  /-- The components below the dimension. -/
  path : List String
  /-- A dimension is never empty. -/
  dimension_ne : dimension ≠ ""
  /-- A component is never empty. -/
  path_ne : ∀ c ∈ path, c ≠ ""
  deriving DecidableEq, Repr

namespace Label

/-- All components, the dimension first. -/
def components (l : Label) : List String := l.dimension :: l.path

/-- The number of components; a dimension alone has length 1. -/
def length (l : Label) : Nat := l.components.length

/-- The label with the given components.  A fault of the dimension is reported before one of the
path, and of several empty components the first is reported. -/
def ofComponents : List String → Except Violation Label
  | [] => .error .emptyLabel
  | dimension :: path =>
      if hd : dimension = "" then .error .emptyDimension
      else
        match hp : path.findIdx? (· = "") with
        | some i => .error (.emptyComponent (i + 1) dimension)
        | none => .ok ⟨dimension, path, hd, by simpa using hp⟩

/-- The label that a stored path stands for. -/
def decode (encoded : String) : Except Error Label :=
  match Path.decode encoded with
  | .error fault => .error (.format fault)
  | .ok components => (ofComponents components).mapError .validation

/-- The stored form of a label. -/
def encode (l : Label) : String := Path.encode l.components

/-- The label of the first `len` components, which has to be one of this label's ancestors or the
label itself. -/
def ancestor? (l : Label) : Nat → Option Label
  | 0 => none
  | n + 1 =>
      if n ≤ l.path.length then
        some ⟨l.dimension, l.path.take n, l.dimension_ne,
          fun c h => l.path_ne c (List.mem_of_mem_take h)⟩
      else none

/-- The stored form of the first `len` components, of which there have to be as many. -/
def encodeFirst? (l : Label) (len : Nat) : Option String :=
  if len ≤ l.length then some (Path.encode (l.components.take len)) else none

/-- The label one component shorter; a bare dimension has none. -/
def parent? (l : Label) : Option Label := l.ancestor? (l.length - 1)

/-- The stored forms of the dimension, of each deeper ancestor and of the label itself. -/
def ladder (l : Label) : List String :=
  (List.range l.length).map fun n => Path.encode (l.components.take (n + 1))

/-- The components with slashes between them, to be read by people. -/
def display (l : Label) : String := "/".intercalate l.components

/-- Component by component, and a label before its descendants. -/
instance : Ord Label := ⟨fun a b => compare a.components b.components⟩

theorem components_injective {a b : Label} (h : a.components = b.components) : a = b := by
  cases a
  cases b
  simp_all [components]

instance : Std.TransOrd Label where
  eq_swap {a b} := @Std.OrientedCmp.eq_swap (List String) compare _ a.components b.components
  isLE_trans {a b c} :=
    @Std.TransCmp.isLE_trans (List String) compare _ a.components b.components c.components

instance : Std.LawfulEqOrd Label where
  compare_self {a} := @Std.ReflCmp.compare_self (List String) compare _ a.components
  eq_of_compare {a b} h :=
    components_injective
      (@Std.LawfulEqCmp.eq_of_compare (List String) compare _ a.components b.components h)

end Label

end FacetIndex
