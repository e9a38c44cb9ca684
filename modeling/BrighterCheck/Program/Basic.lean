import BrighterCheck.Diagnostic.Suppression
import BrighterCheck.Program.Path
import BrighterCheck.Report.Basic
import BrighterCheck.Rule.Analysis
import BrighterCheck.Text.Quoted
import BrighterCheck.Tree.Outline

/-!
# Programs

A program is a set of files that are read, validated and reported on together. Every path has one
number for good; a file that is added again takes the place of the earlier one, and one that cannot
be read leaves its path without a file.
-/

namespace BrighterCheck

/-- The options of a program. -/
structure Config where
  /-- Codes of diagnostics that are left out. -/
  ignore : List Nat := []
  /-- Codes of diagnostics that are reported as warnings. -/
  warn : List Nat := []
  dumpTokens : Bool := false
  dumpTree : Bool := false
  dumpSymbols : Bool := false

/-- A file of a program, with what the last validation found in it. -/
structure ScriptFile where
  path : Path
  source : String
  stream : TokenStream
  analysis : Analysis
  sink : Sink

namespace ScriptFile

/-- A file that was read but not validated. -/
def ofParsed (path : Path) (source : String) (fileId : Nat) (f : ParsedFile) : ScriptFile :=
  ⟨path, source, f.stream, .ofTree f.tree, .empty fileId⟩

/-- The number of a file in its program. -/
def fileId (f : ScriptFile) : Nat :=
  f.sink.fileId

/-- Whether a file holds type definitions. -/
def isTypedef (f : ScriptFile) : Bool :=
  f.path.isTypedef

/-- The flags in the comments of a file. -/
def flags (f : ScriptFile) : List CommentFlag :=
  CommentFlag.ofTokens f.stream.tokens

/-- Validates a file anew. -/
def validate (f : ScriptFile) : ScriptFile :=
  let (analysis, sink) := f.analysis.validate f.isTypedef f.sink
  { f with analysis, sink }

/-- Whether a flag of a file suppresses a diagnostic. -/
def isSuppressed (f : ScriptFile) (d : Diagnostic) : Bool :=
  f.flags.any (·.suppresses d)

/-- The diagnostics of a file that none of its flags suppresses. -/
def openDiagnostics (f : ScriptFile) : List Diagnostic :=
  let flags := f.flags
  f.sink.items.filter fun d => !flags.any (·.suppresses d)

end ScriptFile

/-- The files of a program, their sources, and the numbers of all paths that were ever added. -/
structure Program where
  config : Config
  reporter : Reporter
  files : List ScriptFile
  numbers : List (Path × Nat)

/-- What adding a file gives: the program, the file or an error, and what there is to show. -/
structure Addition where
  program : Program
  result : Except SourceError ScriptFile
  log : String

namespace Program

/-- A program without files. -/
def empty (config : Config) : Program :=
  ⟨config, .empty, [], []⟩

/-- The file with the given path. -/
def file? (p : Program) (path : Path) : Option ScriptFile :=
  p.files.find? fun f => f.path.same path

/-- The number that a path has, if it was added before. -/
def number? (p : Program) (path : Path) : Option Nat :=
  (p.numbers.find? fun (known, _) => known.same path).map Prod.snd

/-- Hands the source of a path to the reporter; also the number of the path. -/
def register (p : Program) (path : Path) (source : String) : Program × Nat :=
  match p.number? path with
  | some n => ({ p with reporter := p.reporter.update n source }, n)
  | none =>
    let (reporter, n) := p.reporter.add ⟨path.text, source⟩
    ({ p with reporter, numbers := p.numbers ++ [(path, n)] }, n)

/-- A listing with a heading and a line that ends it. -/
def titled (what name body : String) : String :=
  s!"=== {what}: {name} ===\n{body}=== End {what} ===\n\n"

/-- A listing of the tokens of a file. -/
def tokenListing (s : TokenStream) : String :=
  String.join (s.toList.map fun t => s!"{t.kind.name} {quoted t.text} @ {t.range.display}\n")

/-- What there is to show of the tokens of a source, even if they are no file. -/
def tokenDump (config : Config) (path : Path) (source : String) : String :=
  if config.dumpTokens then
    match TokenStream.ofSource source with
    | .ok s => titled "Tokens" path.text (tokenListing s)
    | .error _ => ""
  else ""

/-- What there is to show of the tree of a file. -/
def treeDump (config : Config) (path : Path) (t : NumberedTree) : String :=
  if config.dumpTree then titled "AST" path.text t.outline else ""

/-- Adds a file, in place of an earlier one with the same path. -/
def add (p : Program) (path : Path) (source : String) : Addition :=
  let (p, n) := p.register path source
  let others := p.files.filter fun f => !f.path.same path
  let tokens := tokenDump p.config path source
  match ParsedFile.ofSource source with
  | .ok parsed =>
    let file := ScriptFile.ofParsed path source n parsed
    ⟨{ p with files := others ++ [file] }, .ok file, tokens ++ treeDump p.config path parsed.tree⟩
  | .error e =>
    ⟨{ p with files := others }, .error e, tokens ++ p.reporter.render (.ofSourceError n e)⟩

/-- Validates every file. -/
def validate (p : Program) : Program :=
  { p with files := p.files.map ScriptFile.validate }

/-- What there is to show of the symbols of every file. -/
def symbolDumps (p : Program) : String :=
  if p.config.dumpSymbols then
    String.join <| p.files.map fun f =>
      titled "Symbols" f.path.text (f.analysis.scopes.listing f.analysis.tree)
  else ""

/-- A diagnostic with the severity that the options give it. -/
def graded (config : Config) (d : Diagnostic) : Diagnostic :=
  if config.warn.contains d.code then d.withSeverity .warning else d

/-- The diagnostics of all files, without those that are suppressed or ignored. -/
def diagnostics (p : Program) : List Diagnostic :=
  ((p.files.flatMap ScriptFile.openDiagnostics).filter fun d =>
    !p.config.ignore.contains d.code).map (graded p.config)

/-- A diagnostic as text, with the source it concerns. -/
def render (p : Program) (d : Diagnostic) : String :=
  p.reporter.render (.ofDiagnostic d)

end Program

end BrighterCheck
