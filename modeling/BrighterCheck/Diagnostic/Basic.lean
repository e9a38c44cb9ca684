import BrighterCheck.Diagnostic.Violation
import BrighterCheck.Text.Range

/-!
# Diagnostics

A diagnostic is a message with a code, a severity and a place in one file. A sink collects the
diagnostics of a file in the order in which they are found.
-/

namespace BrighterCheck

/-- How serious a diagnostic is. -/
inductive Severity where
  | error
  | warning
  | information
  | hint
deriving DecidableEq, Inhabited

/-- The name of a severity. -/
def Severity.display : Severity → String
  | .error => "error"
  | .warning => "warning"
  | .information => "info"
  | .hint => "hint"

/-- A diagnostic without a place. -/
structure Template where
  code : Nat
  message : String
  severity : Severity
deriving DecidableEq

/-- An error with the given code and message. -/
def Template.error (code : Nat) (message : String) : Template :=
  ⟨code, message, .error⟩

/-- Violations are errors until they are reported otherwise. -/
def Violation.template (v : Violation) : Template :=
  .error v.code v.message

/-- A diagnostic in one file, at a range unless it concerns no part of the file. -/
structure Diagnostic where
  code : Nat
  message : String
  range : Option Range
  severity : Severity
  fileId : Nat
deriving DecidableEq

namespace Diagnostic

/-- The same diagnostic with another severity. -/
def withSeverity (d : Diagnostic) (severity : Severity) : Diagnostic :=
  { d with severity }

/-- A diagnostic on one line: severity, code, place and message. -/
def display (d : Diagnostic) : String :=
  let place := match d.range with
    | some range => s!" at {range.start.display}"
    | none => ""
  s!"{d.severity.display} BS{d.code}{place}: {d.message}"

end Diagnostic

/-- A template at a range of the file `fileId`. -/
def Template.diagnostic (t : Template) (fileId : Nat) (range : Option Range) : Diagnostic :=
  ⟨t.code, t.message, range, t.severity, fileId⟩

/-- A violation at a range. -/
structure Finding where
  violation : Violation
  range : Option Range
deriving DecidableEq

/-- A finding as a diagnostic of the file `fileId`. -/
def Finding.diagnostic (f : Finding) (fileId : Nat) : Diagnostic :=
  f.violation.template.diagnostic fileId f.range

/-- The diagnostics of one file, in the order in which they were added. -/
structure Sink where
  fileId : Nat
  items : List Diagnostic

namespace Sink

/-- The sink of a file that has no diagnostics yet. -/
def empty (fileId : Nat) : Sink :=
  ⟨fileId, []⟩

/-- Adds a diagnostic behind the others; equal ones are kept. -/
def add (s : Sink) (template : Template) (range : Option Range) : Sink :=
  { s with items := s.items ++ [template.diagnostic s.fileId range] }

/-- Adds findings behind the diagnostics that are there. -/
def addAll (s : Sink) (findings : List Finding) : Sink :=
  { s with items := s.items ++ findings.map (·.diagnostic s.fileId) }

/-- Forgets every diagnostic. -/
def clear (s : Sink) : Sink :=
  { s with items := [] }

end Sink

end BrighterCheck
