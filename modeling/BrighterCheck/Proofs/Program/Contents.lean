import BrighterCheck.Proofs.Lexer.Contents
import BrighterCheck.Proofs.Program.Hiding

/-!
# Files with other contents

What strings, comments and the messages of `#error` hold has no influence on anything but their own
texts, as long as flags are left alone.
-/

namespace BrighterCheck

open Relabel

/-- Flags look the same, and no other comment looks like one. -/
lemma CommentFlag.ofComment?_withoutContents (line : Nat) (s : String) :
    ofComment? line (withoutContents.text .comment s) = ofComment? line s := by
  cases hflag : isFlag s with
  | true =>
    have htext : withoutContents.text .comment s = s := if_neg (by simp [hflag])
    rw [htext]
  | false =>
    have htext : withoutContents.text .comment s = "" :=
      if_pos (by simp [hflag, TokenKind.hasContents])
    have hempty : isFlag "" = false := by decide +kernel
    rw [htext, ofComment?_of_not_isFlag hflag, ofComment?_of_not_isFlag hempty]

namespace ParsedFile

variable {source source' : String}

/--
A source all of which is tokens and one with other contents in some of these have the same tokens
but for these contents. They make the same tree but for these contents, or the same error, and their
files are validated alike.
-/
theorem ignores_contents (h : Reworded source.toList source'.toList) :
    (∃ s s', TokenStream.ofSource source = .ok s ∧ TokenStream.ofSource source' = .ok s' ∧
        withoutContents.stream s = withoutContents.stream s') ∧
      (ofSource source).map (relabel · withoutContents) =
        (ofSource source').map (relabel · withoutContents) ∧
      ∀ f f', ofSource source = .ok f → ofSource source' = .ok f' → ∀ path n,
        (ScriptFile.ofParsed path source n f).validate.Coincides
          (ScriptFile.ofParsed path source' n f').validate := by
  have hstream := TokenStream.ofSource_reworded h
  have hfile := ofSource_eq_of_stream_eq (r := withoutContents) rfl (error_hide _) hstream
  refine ⟨?_, hfile, ?_⟩
  · obtain ⟨s, d, hspells⟩ := h.exists_spells .origin
    have hs : TokenStream.ofSource source = .ok s := TokenStream.ofSource_eq_ok.2 ⟨d, hspells⟩
    rw [hs] at hstream
    obtain ⟨s', hs', hsame⟩ := exists_of_map_eq_ok hstream.symm
    exact ⟨s, s', hs, hs', hsame.symm⟩
  · intro f f' hf hf' path n
    rw [hf, hf'] at hfile
    exact coincides_of_relabel_eq hf hf' (Except.ok.inj hfile)
      CommentFlag.ofComment?_withoutContents path n

/-- A string and a comment whose contents are exchanged for others of the same size. -/
theorem ignores_contents_of_string :
    ∃ f f', ofSource "x=\"é\" 'no" = .ok f ∧ ofSource "x=\"ab\" 'on" = .ok f' ∧
      (f.tree.findings false).map (·.violation.code) = [1110] ∧
      ∀ path n, (ScriptFile.ofParsed path "x=\"é\" 'no" n f).validate.Coincides
        (ScriptFile.ofParsed path "x=\"ab\" 'on" n f').validate := by
  have hcodes : (ofSource "x=\"é\" 'no").map
      (fun f => (f.tree.findings false).map (·.violation.code)) = .ok [1110] := by
    decide +kernel
  have hold : "x=\"é\" 'no".toList = ['x', '=', '"', 'é', '"', ' ', '\'', 'n', 'o'] := by
    decide +kernel
  have hnew : "x=\"ab\" 'on".toList = ['x', '=', '"', 'a', 'b', '"', ' ', '\'', 'o', 'n'] := by
    decide +kernel
  have hreworded : Reworded "x=\"é\" 'no".toList "x=\"ab\" 'on".toList := by
    have hflag : CommentFlag.isFlag "'no" = false ∧ CommentFlag.isFlag "'on" = false := by
      decide +kernel
    have hcomment : Rewords .comment ['\'', 'n', 'o'] ['\'', 'o', 'n'] :=
      .line .apostrophe rfl (by simp [Cursor.onLine]) fun _ => hflag
    have hstring : Rewords (.literal .string) ['"', 'é', '"'] ['"', 'a', 'b', '"'] :=
      @Rewords.string ['é'] ['a', 'b'] rfl (by simp [Cursor.onLine])
    have hnone : Cursor.Blank [] := List.forall_mem_nil _
    have hblank : Cursor.Blank [' '] := by simp [Cursor.Blank, Cursor.isBlank]
    have hname : Cursor.scan 'x' ['=', '"', 'é', '"', ' ', '\'', 'n', 'o'] =
        (.ok .identifier, 1) := rfl
    have hequal : Cursor.scan '=' ['"', 'é', '"', ' ', '\'', 'n', 'o'] =
        (.ok (.punctuator .equal), 1) := rfl
    have hquote : Cursor.scan '"' ['é', '"', ' ', '\'', 'n', 'o'] =
        (.ok (.literal .string), 3) := rfl
    have hmark : Cursor.scan '\'' ['n', 'o'] = (.ok .comment, 3) := rfl
    have hend : Reworded [] [] := .finish hnone
    have hfourth := Reworded.of_scan hblank hmark hcomment hend
    have hthird := Reworded.of_scan hnone hquote hstring hfourth
    have hsecond := Reworded.of_scan hnone hequal (.same _ ['=']) hthird
    rw [hold, hnew]
    exact Reworded.of_scan hnone hname (.same _ ['x']) hsecond
  obtain ⟨-, hfile, hcoincides⟩ := ignores_contents hreworded
  obtain ⟨f, hf, hcodes⟩ := exists_of_map_eq_ok hcodes
  rw [hf] at hfile
  obtain ⟨f', hf', -⟩ := exists_of_map_eq_ok hfile.symm
  exact ⟨f, f', hf, hf', hcodes, hcoincides f f' hf hf'⟩

end ParsedFile

end BrighterCheck
