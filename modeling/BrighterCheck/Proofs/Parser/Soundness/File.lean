import BrighterCheck.Proofs.Parser.Soundness.Statement
import BrighterCheck.Proofs.Lexer.Stream
import BrighterCheck.Parser.File

/-!
# Soundness of files

The parsers for every depth are sound, by induction on the depth, and so is the parser for files.
-/

namespace BrighterCheck

open BrighterCheck.Parser Item

theorem sound_nestedWithin (depth : Nat) : (nestedWithin depth).Sound := by
  induction depth with
  | zero => exact ⟨.refuseFor, .refuseFor⟩
  | succ depth ih => exact ⟨.expression ih, .statement ih⟩

/-- What a file that was read is made of. -/
structure ParsedFile.Made (f : ParsedFile) (items : List Item) (rest : Reading) : Prop where
  reads : Reads (.start f.stream) items rest
  lists : Listed .statement isSeparator items
  file_eq : f = ofStatements f.stream (nodes items) rest

namespace ParsedFile.Made

variable {f : ParsedFile} {items : List Item} {rest : Reading} (h : f.Made items rest)

include h

theorem tree_eq : f.tree = root (nodes items) :=
  congrArg tree h.file_eq

theorem store_eq : f.store =
    rest.store.replace 0 (.body ((nodes items).map Tree.id)) (root (nodes items)).range :=
  congrArg store h.file_eq

theorem nodeCount_eq : f.nodeCount = rest.next :=
  (congrArg nodeCount h.file_eq).trans (nodeCount_ofStatements ..)

theorem references_eq : f.references = rest.references :=
  congrArg references h.file_eq

end ParsedFile.Made

/-- Every file that was read is made of items that stand between its start and its end. -/
theorem ParsedFile.made_of_ofStream {s : TokenStream} {f : ParsedFile}
    (he : (Reading.start s).IsLexed) (h : ofStream s = .ok f) :
    f.stream = s ∧ ∃ items rest, f.Made items rest := by
  unfold ofStream at h
  split at h
  case h_1 statements rest hs =>
    cases h
    obtain ⟨items, hr, hl, rfl⟩ :=
      Parses.statements (sound_nestedWithin _) he (.nil (.start s)) hs
    exact ⟨rfl, items, rest, hr, hl, rfl⟩
  case h_2 => cases h

/-- A source is a file if its tokens are one. -/
theorem ParsedFile.ofSource_eq_ok {source : String} {f : ParsedFile} :
    ofSource source = .ok f ↔ ∃ s, TokenStream.ofSource source = .ok s ∧ ofStream s = .ok f := by
  unfold ofSource
  cases hs : TokenStream.ofSource source with
  | error e =>
    constructor
    · exact nofun
    · exact nofun
  | ok s =>
    have hmap : (ofStream s).mapError SourceError.grammatical = .ok f ↔ ofStream s = .ok f := by
      cases ofStream s <;> simp [Except.mapError]
    constructor
    · intro h
      exact ⟨s, rfl, hmap.1 h⟩
    · rintro ⟨_, ⟨⟩, h⟩
      exact hmap.2 h

/-- What passes a test was answered. -/
lemma exists_eq_ok_of_any {ε α : Type} {r : Except ε α} {p : α → Bool}
    (h : r.toOption.any p = true) : ∃ a, r = .ok a ∧ p a = true := by
  cases r with
  | error e => cases h
  | ok a => exact ⟨a, rfl, h⟩

/-- A test that the file of a source passes can be computed from the source. -/
lemma ParsedFile.exists_of_any {source : String} {p : ParsedFile → Bool}
    (h : (ofSource source).toOption.any p = true) : ∃ f, ofSource source = .ok f ∧ p f = true :=
  exists_eq_ok_of_any h

/-- The tokens of a source are lexed. -/
lemma TokenStream.isLexed_start {source : String} {s : TokenStream} (h : ofSource source = .ok s) :
    (Reading.start s).IsLexed := by
  obtain ⟨d, hd⟩ := ofSource_eq_ok.1 h
  exact ⟨(isClosed_of_ofSource h).kind_eof, hd.dot_not_mem⟩

/-- Every file that was read from a source is made of the tokens of the source. -/
theorem ParsedFile.made_of_ofSource {source : String} {f : ParsedFile}
    (h : ofSource source = .ok f) :
    TokenStream.ofSource source = .ok f.stream ∧ ∃ items rest, f.Made items rest := by
  obtain ⟨s, hs, hf⟩ := ofSource_eq_ok.1 h
  obtain ⟨rfl, hm⟩ := made_of_ofStream (TokenStream.isLexed_start hs) hf
  exact ⟨hs, hm⟩

end BrighterCheck
