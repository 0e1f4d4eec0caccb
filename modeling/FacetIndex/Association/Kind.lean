set_option autoImplicit false

/-!
# Association kinds

An association attaches a value to a category.  All associations of one index field hold values of
one kind, because the packed records do not say which kind they hold.
-/

namespace FacetIndex.Association

/-- The kind of value an association holds. -/
inductive Kind where
  /-- A 32-bit integer. -/
  | int
  /-- A single-precision number. -/
  | float
  /-- A byte string of any length. -/
  | bytes
  deriving DecidableEq, Repr, Inhabited

namespace Kind

/-- The name of a kind, as it is shown and stored. -/
def name : Kind → String
  | .int => "int"
  | .float => "float"
  | .bytes => "bytes"

/-- The kind with the given name. -/
def ofName? (name : String) : Option Kind :=
  if name = "int" then some .int
  else if name = "float" then some .float
  else if name = "bytes" then some .bytes
  else none

theorem ofName?_name (k : Kind) : ofName? k.name = some k := by
  cases k <;> decide

end Kind

end FacetIndex.Association
