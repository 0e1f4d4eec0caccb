import FacetIndex.Command.Source

set_option autoImplicit false

/-!
# Outcomes of commands

A command writes to two streams and may fail.  A failure is a cause, together with what the command
was doing when it arose, from the whole to the part.
-/

namespace FacetIndex.Command

/-- What a command was doing. -/
inductive Context where
  /-- Reading an encoded path. -/
  | encodedPath
  /-- Reading hexadecimal text. -/
  | hexInput
  /-- Reading an ordinal set. -/
  | ordinalSet
  /-- Reading the file with the settings. -/
  | readSettings (path : String)
  /-- Making sense of the settings. -/
  | parseSettings (path : String)
  /-- Looking for the file with the documents. -/
  | sourceFile (path : String)
  /-- Reading a line. -/
  | readLine (line : Nat)
  /-- Making sense of a line. -/
  | parseLine (line : Nat)
  /-- Making a document from a line. -/
  | sourceDocument (line : Nat)
  /-- Building the document of a line. -/
  | buildDocument (line : Nat)
  deriving DecidableEq, Repr, Inhabited

/-- The wording of a context. -/
def Context.message : Context → String
  | .encodedPath => "Invalid encoded path"
  | .hexInput => "Invalid hex input"
  | .ordinalSet => "Invalid ordinal set"
  | .readSettings path => s!"Failed to read config file: {path}"
  | .parseSettings path => s!"Failed to parse config file: {path}"
  | .sourceFile path => s!"Invalid source file: {path}"
  | .readLine line => s!"Failed to read line {line}"
  | .parseLine line => s!"Invalid JSON on line {line}"
  | .sourceDocument line => s!"Invalid document on line {line}"
  | .buildDocument line => s!"Failed to build document on line {line}"

/-- Why a command fails. -/
inductive Cause where
  /-- An error of indexing. -/
  | error (e : Error)
  /-- Text that is not hexadecimal. -/
  | hex (fault : Hex.Fault)
  /-- A source document without a meaning. -/
  | source (fault : Source.Fault)
  /-- Text that is not JSON or not of the form that is asked for. -/
  | json
  /-- Bytes that are not text. -/
  | notText
  /-- There is nothing to read under a path. -/
  | nothingToRead
  /-- What is to be read is a directory. -/
  | directory
  /-- There is no file of documents under the path. -/
  | missing (path : String)
  /-- What is under the path is no file. -/
  | notFile (path : String)
  deriving DecidableEq, Repr, Inhabited

/-- The wording of a cause; a failure of the taxonomy has a cause of its own. -/
def Cause.messages : Cause → List String
  | .error (.taxonomy context reason) => [(Error.taxonomy context reason).message, reason]
  | .error e => [e.message]
  | .hex fault => [fault.message]
  | .source fault => [fault.message]
  | .json => ["<json error>"]
  | .notText => ["stream did not contain valid UTF-8"]
  | .nothingToRead => ["No such file or directory (os error 2)"]
  | .directory => ["Is a directory (os error 21)"]
  | .missing path => [s!"File does not exist: {path}"]
  | .notFile path => [s!"Path is not a file: {path}"]

/-- A failure of a command. -/
structure Failure where
  /-- What the command was doing. -/
  doing : Context
  /-- Why it failed. -/
  cause : Cause
  deriving DecidableEq, Repr, Inhabited

/-- The messages of a failure, from the whole to the part. -/
def Failure.chain (f : Failure) : List String := f.doing.message :: f.cause.messages

/-- The text that is shown for a failure: the first message, and the others below it. -/
def Failure.text (f : Failure) : String :=
  let causes := match f.cause.messages with
    | [cause] => s!"\n\nCaused by:\n    {cause}"
    | causes =>
        causes.zipIdx.foldl (fun text c => text ++ s!"\n    {c.2}: {c.1}") "\n\nCaused by:"
  "Error: " ++ f.doing.message ++ causes ++ "\n"

/-- What a command leaves behind. -/
structure Outcome where
  /-- The text on the standard output. -/
  stdout : String := ""
  /-- The text on the standard error output. -/
  stderr : String := ""
  /-- The failure that ended the command early. -/
  failure : Option Failure := none
  deriving DecidableEq, Repr, Inhabited

/-- A command that writes one line. -/
def Outcome.line (text : String) : Outcome := { stdout := text ++ "\n" }

/-- A command that fails before it writes anything. -/
def Outcome.fail (doing : Context) (cause : Cause) : Outcome := { failure := some ⟨doing, cause⟩ }

end FacetIndex.Command
