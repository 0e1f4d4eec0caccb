import FacetIndex.Command.Arguments

set_option autoImplicit false

/-!
# The command line program

Reads the files that a command needs, carries the command out and writes what it leaves behind.
-/

namespace FacetIndex

/-- The number of the error of reading a directory as if it were a file. -/
def isDirectory : UInt32 := 21

/-- What there is under a path.  Any other trouble with reading it ends the program. -/
def look (path : String) : IO Command.Entry := do
  try
    let bytes ← IO.FS.readBinFile path
    return .file bytes.data.toList
  catch trouble =>
    match trouble with
    | .noFileOrDirectory .. => return .missing
    | .inappropriateType _ code _ => if code = isDirectory then return .directory else throw trouble
    | _ => throw trouble

/-- How the program is called. -/
def usage : String :=
  "usage: facet-index build [--config FILE] --file FILE [--skip-invalid]\n"
    ++ "       facet-index encode-path COMPONENT...\n"
    ++ "       facet-index decode-path TERM\n"
    ++ "       facet-index decode-ordinals HEX\n"

/-- Runs the command that the arguments name, and gives the exit code. -/
def runProgram (arguments : List String) : IO UInt32 := do
  match Command.ofArguments? arguments with
  | none =>
      (← IO.getStderr).putStr usage
      return 2
  | some command =>
      let entries ← command.paths.mapM fun path => return (path, ← look path)
      let outcome := command.run fun path => (entries.lookup path).getD .missing
      (← IO.getStdout).putStr outcome.stdout
      (← IO.getStderr).putStr outcome.stderr
      match outcome.failure with
      | none => return 0
      | some failure =>
          (← IO.getStderr).putStr failure.text
          return 1

end FacetIndex

/-- The program. -/
def main (arguments : List String) : IO UInt32 := FacetIndex.runProgram arguments
