import BrighterCheck.Program.Basic
import BrighterCheck.Proofs.Parser.Passage.File
import BrighterCheck.Proofs.Symbol.Relabel
import BrighterCheck.Proofs.Tree.Hiding

/-!
# Files with hidden texts

Rules, symbols and flags read words and flags only. So two sources that are the same with other
texts hidden make files with the same diagnostics, symbols and flags.
-/

namespace BrighterCheck

open Relabel

/-- Two files with the same diagnostics, symbol tables and flags. -/
structure ScriptFile.Coincides (f f' : ScriptFile) : Prop where
  diagnostics : f.sink = f'.sink
  symbols : f.analysis.scopes = f'.analysis.scopes
  flags : f.flags = f'.flags

namespace ParsedFile

variable {hidden : TokenKind → String → Bool} {h : ∀ k s, hidden k s = true → k.isWord = false}
  {source source' : String} {f f' : ParsedFile}

lemma exists_of_map_eq_ok {α β ε : Type} {g : α → β} {b : β} {result : Except ε α}
    (h : result.map g = .ok b) : ∃ a, result = .ok a ∧ g a = b := by
  cases result with
  | error e => cases h
  | ok a => exact ⟨a, rfl, Except.ok.inj h⟩

/-- The words in the tree of a file are not hidden. -/
lemma keepsWords_hide (hf : ofSource source = .ok f) : (hide hidden h).KeepsWords f.tree := by
  intro u hu hc w hw
  have hword : w.kind.isWord = true := by
    cases isWorded hf u hu w (List.mem_append_left _ hw) with
    | inl hword => exact hword
    | inr hboth =>
      rw [hc] at hboth
      cases hboth.2
  constructor
  · rw [text_hide h hword, text_hide h rfl]
  · rw [text_hide h rfl]

lemma findings_hide (hf : ofSource source = .ok f) (typedef : Bool) :
    ((hide hidden h).tree f.tree).findings typedef = f.tree.findings typedef := by
  have hsame (finding : Finding) : finding.relabel (hide hidden h) = finding := by
    obtain ⟨violation, range⟩ := finding
    cases violation with
    | duplicateIdentifier name =>
      exact congrArg (fun s => (⟨.duplicateIdentifier s, range⟩ : Finding)) (text_hide h rfl name)
    | _ => rfl
  rw [Tree.findings_relabel (inPlace_hide h) (keepsWords_hide hf)]
  exact (List.map_congr_left fun finding _ => hsame finding).trans (List.map_id' _)

/-- Files that are the same with texts hidden, flags excepted, are validated alike. -/
theorem coincides_of_relabel_eq (hf : ofSource source = .ok f) (hf' : ofSource source' = .ok f')
    (heq : f.relabel (hide hidden h) = f'.relabel (hide hidden h))
    (hflag : ∀ line s, CommentFlag.ofComment? line ((hide hidden h).text .comment s) =
      CommentFlag.ofComment? line s) (path : Path) (n : Nat) :
    (ScriptFile.ofParsed path source n f).validate.Coincides
      (ScriptFile.ofParsed path source' n f').validate := by
  have htree : (hide hidden h).tree f.tree = (hide hidden h).tree f'.tree := congrArg View.tree heq
  have htokens : f.stream.tokens.map (hide hidden h).token =
      f'.stream.tokens.map (hide hidden h).token :=
    congrArg (fun f => f.stream.tokens) heq
  constructor
  · have hfindings (typedef : Bool) : f.tree.findings typedef = f'.tree.findings typedef := by
      rw [← findings_hide (h := h) hf, htree, findings_hide hf']
    simp only [ScriptFile.validate, Analysis.validate_eq]
    exact congrArg (fun findings => Sink.addAll (.empty n) findings) (hfindings path.isTypedef)
  · have hscopes := Analysis.scopes_validate_relabel (inPlace_hide h) (text_hide h rfl)
      (keepsWords_hide hf) path.isTypedef (.empty n)
    rw [htree, Analysis.scopes_validate_relabel (inPlace_hide h) (text_hide h rfl)
      (keepsWords_hide hf')] at hscopes
    exact hscopes.symm
  · have hflags := CommentFlag.ofTokens_relabel (inPlace_hide h) hflag f.stream.tokens
    rw [htokens, CommentFlag.ofTokens_relabel (inPlace_hide h) hflag] at hflags
    exact hflags.symm

end ParsedFile

end BrighterCheck
