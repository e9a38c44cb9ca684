import BrighterCheck.CommandLine.Options
import BrighterCheck.Program.Load

/-!
# Runs

A run loads the files it is given, validates them, and reports what it found. It fails if a file
cannot be read, if an error is reported, or, where that is wished, if a warning is.
-/

namespace BrighterCheck

/-- The state of a run: the program, the number of files that failed, and what was shown. -/
structure Run where
  program : Program
  failures : Nat
  log : String

/-- How a run ended: its exit status and what it wrote. -/
structure Outcome where
  exit : Nat
  log : String

namespace Run

/-- A run that has loaded nothing. -/
def start (config : Config) : Run :=
  ⟨.empty config, 0, ""⟩

/-- Loads the file `name`, whose text or failure is given. -/
def load (r : Run) (name : String) (text : Except ReadFailure String) : Run :=
  match r.program.load ⟨name⟩ text with
  | .error e => ⟨r.program, r.failures + 1, r.log ++ s!"error: {name}: IO error: {e.message}\n"⟩
  | .ok added =>
    let failed := match added.result with
      | .ok _ => 0
      | .error _ => 1
    ⟨added.program, r.failures + failed, r.log ++ added.log⟩

/-- The number of diagnostics with the given severity. -/
def countOf (severity : Severity) (ds : List Diagnostic) : Nat :=
  ds.countP (·.severity = severity)

/-- Whether a run fails that reports the given diagnostics. -/
def fails (warningsAsErrors : Bool) (failures : Nat) (ds : List Diagnostic) : Bool :=
  failures > 0 || countOf .error ds > 0 || (warningsAsErrors && countOf .warning ds > 0)

/-- The line that sums up a run. -/
def summary (r : Run) (ds : List Diagnostic) : String :=
  let files := r.program.files.length
  let errors := countOf .error ds + r.failures
  let warnings := countOf .warning ds
  s!"Validated {files} file(s): {errors} error(s), {warnings} warning(s)\n"

/-- Validates the loaded files and reports on them. -/
def finish (r : Run) (o : Options) : Outcome :=
  let program := r.program.validate
  let ds := program.diagnostics
  let reports := String.join (ds.map program.render)
  let summary := if o.verbose then r.summary ds else ""
  ⟨if fails o.warningsAsErrors r.failures ds then 1 else 0,
    r.log ++ program.symbolDumps ++ reports ++ summary⟩

/-- A whole run over files whose texts or failures are given. -/
def outcome (o : Options) (texts : List (String × Except ReadFailure String)) : Outcome :=
  let loaded := texts.foldl (fun (r : Run) (name, text) => r.load name text) (start o.config)
  loaded.finish o

end Run

end BrighterCheck
