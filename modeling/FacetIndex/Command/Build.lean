import FacetIndex.Command.Outcome
import FacetIndex.Dimension.Stored
import FacetIndex.Indexer
import FacetIndex.Taxonomy.Memory
import FacetIndex.Text.Lines
import FacetIndex.Text.Printable

set_option autoImplicit false

/-!
# Building documents

The build command reads a file with one source document per line, builds the documents over one
taxonomy in memory and reports each of them as one line of JSON.  Blank lines are passed over but
counted.  A document that the indexer refuses ends the run unless refused documents are to be
skipped; whatever else goes wrong ends the run in any case.  What was reported before stays.
-/

namespace FacetIndex.Command

/-- What there is under a path. -/
inductive Entry where
  /-- Nothing. -/
  | missing
  /-- A directory. -/
  | directory
  /-- A file with its bytes. -/
  | file (bytes : Bytes)
  deriving DecidableEq, Repr, Inhabited

/-- The files that a command sees. -/
abbrev Files : Type := String → Entry

/-- The kind of a value for counting, as it is reported. -/
def kindName : DocValues → String
  | .binary _ => "binary_doc_values"
  | .sortedSet _ => "sorted_set_doc_values"

/-- The report of a built document: its terms in printable form and its values for counting in
hexadecimal. -/
def report (line : Nat) (b : Built) : Json :=
  .record [
    ("line", .nat line),
    ("indexed", .array (b.indexed.map fun f =>
      .record [("field", .str f.name), ("term", .str (Printable.encode f.term))])),
    ("stored", .array (b.added.counting.map fun f =>
      .record [
        ("field", .str f.name),
        ("kind", .str (kindName f.value)),
        ("value", .str (Hex.encode f.value.bytes))]))]

/-- A run over the lines of a file. -/
structure Run where
  /-- The indexer. -/
  indexer : Indexer := {}
  /-- The taxonomy. -/
  taxonomy : Memory := {}
  /-- The reports so far. -/
  stdout : String := ""
  /-- The remarks on skipped documents so far. -/
  stderr : String := ""
  /-- The number of reported documents. -/
  built : Nat := 0
  /-- The number of skipped documents. -/
  rejected : Nat := 0

namespace Run

/-- Builds the document of a line. -/
def document (skipInvalid : Bool) (r : Run) (line : Nat) (d : Document) : Run × Option Failure :=
  match r with
  | ⟨indexer, taxonomy, stdout, stderr, built, rejected⟩ =>
      match indexer.build Memory.taxonomy taxonomy d with
      | (.ok b, indexer, taxonomy) =>
          (⟨indexer, taxonomy, stdout ++ (report line b).compact ++ "\n", stderr, built + 1,
            rejected⟩, none)
      | (.error e, indexer, taxonomy) =>
          if skipInvalid && e.isValidation then
            (⟨indexer, taxonomy, stdout, stderr ++ s!"Skipping line {line}: " ++ e.message ++ "\n",
              built, rejected + 1⟩, none)
          else
            (⟨indexer, taxonomy, stdout, stderr, built, rejected⟩,
              some ⟨.buildDocument line, .error e⟩)

/-- The document of a line, or nothing for a blank one. -/
def read (line : Nat) (bytes : Bytes) : Except Failure (Option Document) :=
  match Lines.text? bytes with
  | none => .error ⟨.readLine line, .notText⟩
  | some text =>
      if Lines.isBlankLine text then .ok none
      else
        match (Json.ofString? text).bind Source.Document.ofJson? with
        | none => .error ⟨.parseLine line, .json⟩
        | some source =>
            match source.meaning with
            | .error fault => .error ⟨.sourceDocument line, .source fault⟩
            | .ok d => .ok (some d)

/-- Takes a line. -/
def line (skipInvalid : Bool) (r : Run) (number : Nat) (bytes : Bytes) : Run × Option Failure :=
  match read number bytes with
  | .error failure => (r, some failure)
  | .ok none => (r, none)
  | .ok (some d) => r.document skipInvalid number d

/-- Takes lines up to the first failure; the first line has the given number. -/
def lines (skipInvalid : Bool) : Run → Nat → List Bytes → Run × Option Failure
  | r, _, [] => (r, none)
  | r, number, bytes :: rest =>
      match r.line skipInvalid number bytes with
      | (r, some failure) => (r, some failure)
      | (r, none) => lines skipInvalid r (number + 1) rest

/-- The remark at the end of a run without a failure. -/
def summary (r : Run) : String :=
  s!"Built {r.built} documents ({r.rejected} rejected), {r.taxonomy.size} categories in taxonomy\n"

end Run

/-- The settings of a file, or the default ones where no file is named. -/
def loadSettings (files : Files) : Option String → Except Failure Dimension.Store
  | none => .ok {}
  | some path =>
      match files path with
      | .missing => .error ⟨.readSettings path, .nothingToRead⟩
      | .directory => .error ⟨.readSettings path, .directory⟩
      | .file bytes =>
          match Lines.text? bytes with
          | none => .error ⟨.readSettings path, .notText⟩
          | some text =>
              match Dimension.Store.load text with
              | .error e => .error ⟨.parseSettings path, .error e⟩
              | .ok settings => .ok settings

/-- The documents of a file. -/
def sourceLines (files : Files) (path : String) : Except Failure (List Bytes) :=
  match files path with
  | .missing => .error ⟨.sourceFile path, .missing path⟩
  | .directory => .error ⟨.sourceFile path, .notFile path⟩
  | .file bytes => .ok (Lines.ofBytes bytes)

/-- Reports the documents of a file under the settings of another one. -/
def buildFile (files : Files) (settingsPath : Option String) (path : String) (skipInvalid : Bool) :
    Outcome :=
  match loadSettings files settingsPath with
  | .error failure => { failure := some failure }
  | .ok settings =>
      match sourceLines files path with
      | .error failure => { failure := some failure }
      | .ok lines =>
          match Run.lines skipInvalid { indexer := { settings } } 1 lines with
          | (r, some failure) => ⟨r.stdout, r.stderr, some failure⟩
          | (r, none) => ⟨r.stdout, r.stderr ++ r.summary, none⟩

end FacetIndex.Command
