import BrighterCheck.CommandLine.Run

/-!
# The command

Reads the files that the command line names, and writes what the run shows to the error output.
-/

namespace BrighterCheck

/-- Reads the text of a file. -/
def readText (name : String) : IO (Except ReadFailure String) := do
  try
    let bytes ← IO.FS.readBinFile name
    match String.fromUTF8? bytes with
    | some text => return .ok text
    | none => return .error .notText
  catch
    | .noFileOrDirectory .. => return .error .notFound
    | .inappropriateType _ 21 _ => return .error .isDirectory
    | .inappropriateType .. => return .error .notDirectory
    | .invalidArgument .. => return .error .nameTooLong
    | e => return .error (.other (toString e))

/-- What is written when the command line is malformed. -/
def usage : String :=
  "usage: [--dump-tokens] [--dump-ast] [--dump-symbols] [-v] [--ignore-code N] [--warn-code N] " ++
    "[--warnings-as-errors] FILES...\n"

/-- Runs the command with the given arguments. -/
def runCommand (args : List String) : IO UInt32 := do
  match Options.ofArguments? args with
  | none =>
    IO.eprint usage
    return 2
  | some options =>
    let texts ← options.files.mapM fun name => return (name, ← readText name)
    let outcome := Run.outcome options texts
    IO.eprint outcome.log
    return outcome.exit.toUInt32

end BrighterCheck

/-- The entry point of the program. -/
def main (args : List String) : IO UInt32 :=
  BrighterCheck.runCommand args
