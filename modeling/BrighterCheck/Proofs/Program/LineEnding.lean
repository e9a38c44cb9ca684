import BrighterCheck.Proofs.Lexer.LineEnding
import BrighterCheck.Proofs.Program.Hiding

/-!
# Files with any line ends

A source that ends some of its lines with a carriage return and a line feed is read and validated
like the one that ends them with line feeds alone.
-/

namespace BrighterCheck.ParsedFile

open Relabel

variable {source source' : String} {f : ParsedFile}

/-- No node holds a line end. -/
lemma tree_withoutBreaks (hf : ofSource source = .ok f) : withoutBreaks.tree f.tree = f.tree := by
  apply (inPlace_hide _).tree_eq_self
  intro u hu
  apply kind_hide _ (isWorded hf u hu)
  intro _ k _ hk
  apply decide_eq_false
  rintro rfl
  cases hk

/-- What is read from a source, apart from its tokens. -/
def content (f : ParsedFile) : NumberedTree × Nat × References :=
  (f.tree, f.nodeCount, f.references)

/-- The same of how a file looks. -/
def View.content (v : View) : NumberedTree × Nat × References :=
  (v.tree, v.nodeCount, v.references)

lemma content_relabel (hf : ofSource source = .ok f) :
    (f.relabel withoutBreaks).content = f.content := by
  have hreferences : withoutBreaks.references f.references = f.references :=
    (inPlace_hide _).references_eq f.references
  rw [View.content, relabel, tree_withoutBreaks hf, hreferences]
  rfl

/--
A source without carriage returns and one that has some in front of its line feeds have the same
tokens, but for the texts of their line ends, or the same lexical error. They make the same tree or
the same error, and their files are validated alike.
-/
theorem ignores_line_ends (hmem : '\r' ∉ source.toList)
    (h : AddsReturns source.toList source'.toList) :
    (TokenStream.ofSource source).map withoutBreaks.stream =
        (TokenStream.ofSource source').map withoutBreaks.stream ∧
      (ofSource source).map content = (ofSource source').map content ∧
      ∀ f f', ofSource source = .ok f → ofSource source' = .ok f' → ∀ path n,
        (ScriptFile.ofParsed path source n f).validate.Coincides
          (ScriptFile.ofParsed path source' n f').validate := by
  have hstream := TokenStream.ofSource_addsReturns h hmem
  have hfile := ofSource_eq_of_stream_eq (r := withoutBreaks) rfl (error_hide _) hstream
  refine ⟨hstream, ?_, ?_⟩
  · have hcontent (source : String) : (ofSource source).map content =
        ((ofSource source).map (relabel · withoutBreaks)).map View.content := by
      cases hf : ofSource source with
      | error e => rfl
      | ok f => exact congrArg Except.ok (content_relabel hf).symm
    rw [hcontent source, hcontent source', hfile]
  · intro f f' hf hf' path n
    rw [hf, hf'] at hfile
    exact coincides_of_relabel_eq hf hf' (Except.ok.inj hfile) (fun _ _ => rfl) path n

/-- A flag and a string at the ends of lines, which end in either way. -/
theorem ignores_line_ends_of_flag :
    ∃ f f', ofSource "enum a\nx=\"s\" ' bs:disable-line\nX\nend enum" = .ok f ∧
      ofSource "enum a\r\nx=\"s\" ' bs:disable-line\r\nX\r\nend enum" = .ok f' ∧
      (f.tree.findings false).map (·.violation.code) = [1102, 1104] ∧ f.tree = f'.tree ∧
      ∀ path n, (ScriptFile.ofParsed path
        "enum a\nx=\"s\" ' bs:disable-line\nX\nend enum" n f).validate.Coincides
          (ScriptFile.ofParsed path
            "enum a\r\nx=\"s\" ' bs:disable-line\r\nX\r\nend enum" n f').validate := by
  have hcodes : (ofSource "enum a\nx=\"s\" ' bs:disable-line\nX\nend enum").map
      (fun f => (f.tree.findings false).map (·.violation.code)) = .ok [1102, 1104] := by
    decide +kernel
  have hadds : AddsReturns "enum a\nx=\"s\" ' bs:disable-line\nX\nend enum".toList
      "enum a\r\nx=\"s\" ' bs:disable-line\r\nX\r\nend enum".toList := by
    have hall : "enum a\r\nx=\"s\" ' bs:disable-line\r\nX\r\nend enum".toList =
        "enum a\nx=\"s\" ' bs:disable-line\nX\nend enum".toList.flatMap
          fun c => if c = '\n' then ['\r', '\n'] else [c] := by
      decide +kernel
    rw [hall]
    exact .everywhere _
  obtain ⟨-, hcontent, hcoincides⟩ := ignores_line_ends (by decide +kernel) hadds
  obtain ⟨f, hf, hcodes⟩ := exists_of_map_eq_ok hcodes
  rw [hf] at hcontent
  obtain ⟨f', hf', hsame⟩ := exists_of_map_eq_ok hcontent.symm
  have htree : f.tree = f'.tree := congrArg Prod.fst hsame.symm
  exact ⟨f, f', hf, hf', hcodes, htree, hcoincides f f' hf hf'⟩

end BrighterCheck.ParsedFile
