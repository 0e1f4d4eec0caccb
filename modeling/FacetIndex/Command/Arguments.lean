import FacetIndex.Command.Build
import FacetIndex.Command.Inspect

set_option autoImplicit false

/-!
# Command lines

A command line names a command, and its options and values follow in any order.
-/

namespace FacetIndex

/-- What a command line asks for. -/
inductive Command where
  /-- Report the documents of a file. -/
  | build (config : Option String) (file : String) (skipInvalid : Bool)
  /-- Show the encoded path of components. -/
  | encodePath (components : List String)
  /-- Show the components of an encoded path. -/
  | decodePath (encoded : String)
  /-- Show the ordinals of a blob. -/
  | decodeOrdinals (hex : String)
  deriving DecidableEq, Repr

namespace Command

/-- The options of the build command so far. -/
structure BuildOptions where
  /-- The file with the settings. -/
  config : Option String := none
  /-- The file with the documents. -/
  file : Option String := none
  /-- Refused documents are skipped. -/
  skipInvalid : Bool := false
  deriving DecidableEq, Repr, Inhabited

/-- Reads the options of the build command, each of which is given at most once. -/
def readBuild (o : BuildOptions) : List String → Option Command
  | [] => o.file.map fun file => .build o.config file o.skipInvalid
  | "--skip-invalid" :: rest =>
      if o.skipInvalid then none else readBuild { o with skipInvalid := true } rest
  | name :: value :: rest =>
      if name = "--config" && o.config.isNone then readBuild { o with config := some value } rest
      else if (name = "--file" || name = "-f") && o.file.isNone then
        readBuild { o with file := some value } rest
      else none
  | _ => none

/-- Reads a command line. -/
def ofArguments? : List String → Option Command
  | "build" :: options => readBuild {} options
  | "encode-path" :: component :: components => some (.encodePath (component :: components))
  | ["decode-path", encoded] => some (.decodePath encoded)
  | ["decode-ordinals", hex] => some (.decodeOrdinals hex)
  | _ => none

/-- The paths of the files that a command reads. -/
def paths : Command → List String
  | .build config file _ => config.toList ++ [file]
  | _ => []

/-- Carries out a command. -/
def run (files : Files) : Command → Outcome
  | .build config file skipInvalid => Command.buildFile files config file skipInvalid
  | .encodePath components => Command.showPath components
  | .decodePath encoded => Command.showComponents encoded
  | .decodeOrdinals hex => Command.showOrdinals hex

end Command

end FacetIndex
