import BrighterCheck.Program.Basic
import BrighterCheck.Proofs.Diagnostic.LetterCase
import BrighterCheck.Proofs.Symbol.LetterCase
import BrighterCheck.Proofs.Tree.Rows

/-!
# Files in any letter case

Two sources that differ in the case of ASCII letters have the same tokens, nodes, diagnostics,
symbols and flags, up to the spelling of what was written.
-/

namespace BrighterCheck

open Ascii

/-- What tokens are and where they stand. -/
def TokenStream.outline (s : TokenStream) : List (TokenKind × Range) :=
  s.toList.map fun t => (t.kind, t.range)

/-- The tree of a file and its rows, with all texts in small letters. -/
structure ParsedFile.Outline where
  tree : NumberedTree
  rows : Arena

def ParsedFile.outline (f : ParsedFile) : ParsedFile.Outline :=
  ⟨Relabel.lower.tree f.tree, f.arena.map Relabel.lower.record⟩

lemma TokenStream.outline_ofSource_lower (source : String) :
    (ofSource (Ascii.lower source)).map outline = (ofSource source).map outline := by
  have hoff (s : TokenStream) : (Relabel.lower.stream s).outline = s.outline := by
    simp only [outline, toList, Relabel.stream, List.map_append, List.map_map]
    rfl
  rw [ofSource_lower]
  cases ofSource source with
  | error e => rfl
  | ok s => exact congrArg Except.ok (hoff s)

/-- A diagnostic without its wording. -/
def Diagnostic.outline (d : Diagnostic) : Nat × Severity × Option Range :=
  (d.code, d.severity, d.range)

/-- Two files with the same diagnostics, symbols and flags, up to the spelling of names. -/
structure ScriptFile.Agrees (f f' : ScriptFile) : Prop where
  diagnostics : f.sink.items.map Diagnostic.outline = f'.sink.items.map Diagnostic.outline
  symbols : f.analysis.scopes.outline = f'.analysis.scopes.outline
  flags : f.flags = f'.flags

namespace SourceError

def lower : SourceError → SourceError
  | .lexical e => .lexical e
  | .grammatical e => .grammatical (Relabel.lower.error e)

lemma range_lower (e : SourceError) : e.lower.range = e.range := by
  cases e <;> rfl

end SourceError

namespace ParsedFile

/-- A lowered source gives the lowered file, or the lowered error. -/
theorem ofSource_lower (source : String) :
    (ofSource (Ascii.lower source)).map view =
      ((ofSource source).map (relabel · .lower)).mapError SourceError.lower := by
  unfold ofSource
  rw [TokenStream.ofSource_lower]
  cases hs : TokenStream.ofSource source with
  | error e => rfl
  | ok s =>
    have hstream := ofStream_relabel (r := .lower) rfl (TokenStream.isClosed_of_ofSource hs)
    have hmap (x : Except SyntaxError ParsedFile) :
        (x.mapError SourceError.grammatical).map view = (x.map view).mapError .grammatical := by
      cases x <;> rfl
    dsimp only [Except.map]
    refine (hmap _).trans ?_
    rw [hstream]
    cases ofStream s <;> rfl

variable {source source' : String}

lemma relabel_eq (h : Ascii.lower source = Ascii.lower source') :
    ((ofSource source).map (relabel · .lower)).mapError SourceError.lower =
      ((ofSource source').map (relabel · .lower)).mapError SourceError.lower := by
  rw [← ofSource_lower, ← ofSource_lower, h]

lemma outline_ofSource (h : Ascii.lower source = Ascii.lower source') :
    ((ofSource source).map outline).mapError SourceError.range =
      ((ofSource source').map outline).mapError SourceError.range := by
  have hoff (source : String) : ((ofSource source).map outline).mapError SourceError.range =
      ((((ofSource source).map (relabel · .lower)).mapError SourceError.lower).map fun f =>
        (⟨f.tree, f.tree.byNumber.map Located.record⟩ : Outline)).mapError SourceError.range := by
    cases hf : ofSource source with
    | error e => exact congrArg Except.error e.range_lower.symm
    | ok f =>
      have hrows := Relabel.lower.map_record_arena rfl hf
      exact congrArg (fun rows => Except.ok (⟨_, rows⟩ : Outline)) hrows
  rw [hoff, hoff, relabel_eq h]

lemma outline_diagnostic_lower (n : Nat) (finding : Finding) :
    (finding.lower.diagnostic n).outline = (finding.diagnostic n).outline := by
  show (finding.violation.lower.code, Severity.error, finding.range) = _
  rw [Violation.code_lower]
  rfl

/-- A file whose lowered form is that of another one is validated like it. -/
lemma agrees_of_relabel_eq {f f' : ParsedFile} (h : f.relabel .lower = f'.relabel .lower)
    (path : Path) (n : Nat) :
    (ScriptFile.ofParsed path source n f).validate.Agrees
      (ScriptFile.ofParsed path source' n f').validate := by
  have htree : Relabel.lower.tree f.tree = Relabel.lower.tree f'.tree := congrArg View.tree h
  have hstream : Relabel.lower.stream f.stream = Relabel.lower.stream f'.stream :=
    congrArg View.stream h
  constructor
  · have hfindings (t : NumberedTree) (typedef : Bool) :
        ((t.findings typedef).map (·.diagnostic n)).map Diagnostic.outline =
          (((Relabel.lower.tree t).findings typedef).map (·.diagnostic n)).map
            Diagnostic.outline := by
      simp only [Tree.findings_lower, List.map_map, Function.comp_def, outline_diagnostic_lower]
    have hitems := hfindings f.tree path.isTypedef
    rw [htree, ← hfindings] at hitems
    simp only [ScriptFile.validate, Analysis.validate_eq]
    exact hitems
  · have hscopes := Analysis.outline_validate_lower f.tree path.isTypedef (.empty n)
    rw [htree, Analysis.outline_validate_lower] at hscopes
    exact hscopes.symm
  · have hflags := CommentFlag.ofTokens_lower f.stream.tokens
    have htokens : f.stream.tokens.map Relabel.lower.token =
        f'.stream.tokens.map Relabel.lower.token := congrArg TokenStream.tokens hstream
    rw [htokens, CommentFlag.ofTokens_lower] at hflags
    exact hflags.symm

/-- Sources that differ in letter case are read alike, and their files are validated alike. -/
theorem ignores_letter_case (h : Ascii.lower source = Ascii.lower source') :
    (TokenStream.ofSource source).map TokenStream.outline =
        (TokenStream.ofSource source').map TokenStream.outline ∧
      ((ofSource source).map outline).mapError SourceError.range =
        ((ofSource source').map outline).mapError SourceError.range ∧
      ∀ f f', ofSource source = .ok f → ofSource source' = .ok f' → ∀ path n,
        (ScriptFile.ofParsed path source n f).validate.Agrees
          (ScriptFile.ofParsed path source' n f').validate := by
  refine ⟨?_, ?_, ?_⟩
  · rw [← TokenStream.outline_ofSource_lower, h, TokenStream.outline_ofSource_lower]
  · exact outline_ofSource h
  · intro f f' hf hf' path n
    have heq := relabel_eq h
    rw [hf, hf'] at heq
    exact agrees_of_relabel_eq (Except.ok.inj heq) path n

/-- Two spellings of an enum whose members have the same name in different letter case. -/
theorem ignores_letter_case_of_enum :
    ∃ f f', ofSource "enum a\nx=1\nX=2\nend enum" = .ok f ∧
      ofSource "ENUM A\nX=1\nX=2\nEnd Enum" = .ok f' ∧
      (f.tree.findings false).map (·.violation.code) = [1102] ∧ f.outline = f'.outline ∧
      ∀ path n,
        (ScriptFile.ofParsed path "enum a\nx=1\nX=2\nend enum" n f).validate.Agrees
          (ScriptFile.ofParsed path "ENUM A\nX=1\nX=2\nEnd Enum" n f').validate := by
  have hcodes : (ofSource "enum a\nx=1\nX=2\nend enum").toOption.any
      fun f => (f.tree.findings false).map (·.violation.code) = [1102] := by
    decide +kernel
  have hread : (ofSource "ENUM A\nX=1\nX=2\nEnd Enum").toOption.any fun _ => true := by
    decide +kernel
  obtain ⟨-, houtline, hagrees⟩ := ignores_letter_case
    (show Ascii.lower "enum a\nx=1\nX=2\nend enum" = Ascii.lower "ENUM A\nX=1\nX=2\nEnd Enum" by
      decide +kernel)
  obtain ⟨f, hf, hcodes⟩ := exists_of_any hcodes
  obtain ⟨f', hf', -⟩ := exists_of_any hread
  rw [hf, hf'] at houtline
  exact ⟨f, f', hf, hf', of_decide_eq_true hcodes, Except.ok.inj houtline, hagrees f f' hf hf'⟩

end ParsedFile

end BrighterCheck
