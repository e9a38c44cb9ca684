import BrighterCheck.Diagnostic.Basic
import BrighterCheck.Parser.File
import BrighterCheck.Report.Snippet

/-!
# Reports

A report is a message with a heading and, if it has a place, a snippet of the source. A reporter
holds the sources that reports refer to, by number.
-/

namespace BrighterCheck

/-- A source with the name it is shown under. -/
structure NamedSource where
  name : String
  text : String

/-- A message in a file: a heading, and a label where it has a place. -/
structure Report where
  heading : String
  place : Option (Nat × Range)
  note : String

namespace Report

/-- The word for a severity in the heading of a report. -/
def severityWord : Severity → String
  | .error => "error"
  | .warning => "warning"
  | .information => "note"
  | .hint => "help"

/-- The report of a diagnostic. -/
def ofDiagnostic (d : Diagnostic) : Report where
  heading := s!"{severityWord d.severity}[BS{d.code}]: {d.message}"
  place := d.range.map (d.fileId, ·)
  note := ""

/-- The report of an error that kept a file from being read. -/
def ofSourceError (fileId : Nat) (e : SourceError) : Report where
  heading :=
    match e with
    | .lexical _ => "error: Lexer error"
    | .grammatical _ => "error: Syntax error"
  place := some (fileId, e.range)
  note := e.message

end Report

/-- The sources that reports refer to; the number of a source is its place in the list. -/
structure Reporter where
  sources : List NamedSource

namespace Reporter

/-- A reporter without sources. -/
def empty : Reporter :=
  ⟨[]⟩

/-- Adds a source; its number is the number of sources before it. -/
def add (r : Reporter) (source : NamedSource) : Reporter × Nat :=
  (⟨r.sources ++ [source]⟩, r.sources.length)

/-- Exchanges the text of the source with the given number, if there is one. -/
def update (r : Reporter) (fileId : Nat) (text : String) : Reporter :=
  ⟨r.sources.modify fileId fun source => { source with text }⟩

/-- The number of sources. -/
def count (r : Reporter) : Nat :=
  r.sources.length

/-- The lines of a report; one that refers to an unknown source has none. -/
def reportLines (r : Reporter) (report : Report) : List (List Char) :=
  match report.place with
  | none => [report.heading.toList, []]
  | some (fileId, range) =>
    match r.sources[fileId]? with
    | none => []
    | some source =>
      let cs := source.text.toList
      let (start, finish) := byteSpan cs range
      let snippet := Snippet.layout source.name cs ⟨start, finish, report.note⟩
      report.heading.toList :: (snippet ++ [[]])

/-- A report as text. -/
def render (r : Reporter) (report : Report) : String :=
  String.ofList ((r.reportLines report).flatMap (· ++ ['\n']))

end Reporter

end BrighterCheck
