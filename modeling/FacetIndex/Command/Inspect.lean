import FacetIndex.Command.Outcome
import FacetIndex.OrdinalSet
import FacetIndex.Text.Printable

set_option autoImplicit false

/-!
# Commands that look at encoded values

Terms are typed and shown in printable form, and blobs as hexadecimal text.
-/

namespace FacetIndex.Command

/-- Shows the encoded path of typed components. -/
def showPath (typed : List String) : Outcome :=
  .line (Printable.encode (Path.encode (typed.map Printable.decode)))

/-- Shows the components of a typed path, as a JSON list. -/
def showComponents (typed : String) : Outcome :=
  match Path.decode (Printable.decode typed) with
  | .error fault => .fail .encodedPath (.error (.format fault))
  | .ok components => .line (Json.array (components.map .str)).compact

/-- The ordinals of a blob that is given as hexadecimal text. -/
def readOrdinals (hex : String) : Except Failure (List Ordinal) :=
  match Hex.decode hex with
  | .error fault => .error ⟨.hexInput, .hex fault⟩
  | .ok blob =>
      match OrdinalSet.decode blob with
      | .error fault => .error ⟨.ordinalSet, .error (.format fault)⟩
      | .ok ordinals => .ok ordinals

/-- Shows the ordinals of a blob, as a JSON list. -/
def showOrdinals (hex : String) : Outcome :=
  match readOrdinals hex with
  | .error failure => { failure := some failure }
  | .ok ordinals => .line (Json.array (ordinals.map fun o => .nat o.toNatClampNeg)).compact

end FacetIndex.Command
