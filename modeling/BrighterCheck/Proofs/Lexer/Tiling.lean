import BrighterCheck.Proofs.Lexer.Munch
import BrighterCheck.Proofs.Lexer.Order
import Mathlib.Data.List.Induction

/-!
# Tiling

Read one after the other, the lexemes of a source tile it: each stands for a piece of text that is
not empty, with nothing but blanks between two of them and at both ends. Behind them the end of the
source is read, again and again.
-/

namespace BrighterCheck

section Position

lemma utf8ByteSize_ofList_append (cs ds : List Char) :
    (String.ofList (cs ++ ds)).utf8ByteSize =
      (String.ofList cs).utf8ByteSize + (String.ofList ds).utf8ByteSize := by
  rw [String.ofList_append, String.utf8ByteSize_append]

lemma utf8ByteSize_ofList_singleton (c : Char) :
    (String.ofList [c]).utf8ByteSize = c.utf8Size := by
  rw [← String.singleton_eq_ofList, String.utf8ByteSize_singleton]

/-- Every character has at least one byte. -/
lemma length_le_utf8ByteSize (cs : List Char) : cs.length ≤ (String.ofList cs).utf8ByteSize := by
  induction cs with
  | nil => exact Nat.zero_le _
  | cons c cs ih =>
    have hsize := c.utf8Size_pos
    rw [← List.singleton_append, utf8ByteSize_ofList_append, utf8ByteSize_ofList_singleton,
      List.length_append, List.length_singleton]
    omega

/-- The last line of a text, which no line feed ends. -/
def lastLine (cs : List Char) : List Char :=
  (cs.reverse.takeWhile (· != '\n')).reverse

/-- The position behind a text: the line feeds before it, and the bytes of its last line. -/
def Position.behind (cs : List Char) : Position where
  line := cs.count '\n'
  column := (String.ofList (lastLine cs)).utf8ByteSize

/-- The last line grows with the text until the next line feed. -/
lemma lastLine_concat (cs : List Char) (c : Char) :
    lastLine (cs ++ [c]) = if c = '\n' then [] else lastLine cs ++ [c] := by
  rw [lastLine, List.reverse_append, List.reverse_singleton, List.singleton_append,
    List.takeWhile_cons]
  by_cases hc : c = '\n'
  · rw [if_pos hc, hc]
    rfl
  · rw [if_neg hc, if_pos (bne_iff_ne.2 hc), List.reverse_cons]
    rfl

/-- Going through a text from the origin leads to the position behind it. -/
theorem Position.after_origin (cs : List Char) : Position.origin.after cs = .behind cs := by
  induction cs using List.reverseRecOn with
  | nil => rfl
  | append_singleton cs c ih =>
    rw [after_append, ih]
    show (behind cs).step c = behind (cs ++ [c])
    rw [behind, behind, List.count_append, lastLine_concat, step]
    split
    case isTrue hc =>
      rw [hc]
      rfl
    case isFalse hc =>
      rw [utf8ByteSize_ofList_append, utf8ByteSize_ofList_singleton,
        List.count_singleton, if_neg (by simpa using hc), Nat.add_zero]

lemma Position.after_behind (cs ds : List Char) :
    (Position.behind cs).after ds = .behind (cs ++ ds) := by
  rw [← after_origin, ← after_append, after_origin]

end Position

namespace Cursor

/-- The range of a token or of a refused piece. -/
def lexemeRange : Except LexicalError Token → Range
  | .ok t => t.range
  | .error e => e.range

/--
The lexemes tile the text `rest` behind `before`: it consists of one piece for each of them, with
blanks around the pieces. A token has the text of its piece, and a range runs from the position
behind all text before the piece to the position behind the piece.
-/
inductive Tiles : List Char → List Char → List (Except LexicalError Token) → Prop where
  | nil {before gap : List Char} : Blank gap → Tiles before gap []
  | cons {before gap piece rest : List Char} {found : Except LexicalFault TokenKind}
      {lexemes : List (Except LexicalError Token)} :
      Blank gap → piece ≠ [] → found ≠ .ok .eof →
      Tiles (before ++ gap ++ piece) rest lexemes →
      Tiles before (gap ++ (piece ++ rest))
        (lexeme found piece ⟨.behind (before ++ gap), .behind (before ++ gap ++ piece)⟩ :: lexemes)

variable {before rest : List Char} {ls : List (Except LexicalError Token)}

/-- There are at most as many lexemes as characters. -/
lemma Tiles.length_le (h : Tiles before rest ls) : ls.length ≤ rest.length := by
  induction h with
  | nil => exact Nat.zero_le _
  | cons _ hpiece _ _ ih =>
    have hpos := List.length_pos_iff.2 hpiece
    simp only [List.length_cons, List.length_append]
    omega

/-- No lexeme stands for the end of the source. -/
lemma Tiles.kind_ne_eof (h : Tiles before rest ls) : ∀ t, .ok t ∈ ls → t.kind ≠ .eof := by
  induction h with
  | nil =>
    intro t ht
    cases ht
  | @cons _ _ _ _ found _ _ _ hfound _ ih =>
    intro t ht
    cases List.mem_cons.1 ht with
    | inl ht =>
      cases found with
      | ok kind =>
        cases ht
        exact fun hkind => hfound (congrArg Except.ok hkind)
      | error fault => cases ht
    | inr ht => exact ih t ht

lemma lexemeRange_lexeme (found : Except LexicalFault TokenKind) (piece : List Char) (r : Range) :
    lexemeRange (lexeme found piece r) = r := by
  cases found with
  | ok kind => rfl
  | error fault => rfl

/-- The ranges are not empty, and each stands behind the one before it. -/
lemma Tiles.between (h : Tiles before rest ls) :
    Range.Between (.behind before) (ls.map lexemeRange) (.behind (before ++ rest)) := by
  induction h with
  | @nil before gap _ =>
    rw [← Position.after_behind]
    exact .nil (Position.le_after _ _)
  | @cons before gap piece rest found ls _ hpiece _ _ ih =>
    have hend : before ++ gap ++ piece ++ rest = before ++ (gap ++ (piece ++ rest)) := by
      simp only [List.append_assoc]
    rw [hend] at ih
    rw [List.map_cons, lexemeRange_lexeme]
    apply Range.Between.cons
    · rw [← Position.after_behind]
      exact Position.le_after _ _
    · obtain ⟨x, xs, rfl⟩ := List.exists_cons_of_ne_nil hpiece
      rw [← Position.after_behind (before ++ gap)]
      exact Position.lt_after _ _ _
    · exact ih

/-- No piece stands for the end of the source. -/
lemma StartsWith.ne_eof {text piece : List Char} {found : Except LexicalFault TokenKind}
    (h : StartsWith text found piece) : found ≠ .ok .eof := by
  intro hfound
  subst hfound
  obtain ⟨before, pattern, after, hrules, -⟩ := IsToken.first h
  apply TokenKind.ne_eof_of_mem (k := .eof) _ rfl
  rw [hrules]
  simp

/-- Behind a blank rest, only the end of the source is read. -/
lemma lexemes_of_blank {c : Cursor} (h : Blank c.rest) (n : Nat) :
    lexemes n c = List.replicate n (.ok (.endOfSource (c.place.after c.rest))) := by
  induction n generalizing c with
  | zero => rfl
  | succ n ih =>
    have hnext : c.next = (_, _) := Prod.ext_iff.2 (c.answers_next.unique (.finish h))
    rw [lexemes, hnext, List.replicate_succ]
    exact congrArg (List.cons _) (ih fun x hx => absurd hx List.not_mem_nil)

/-- Reading on gives lexemes that tile the rest of the source, and then only its end. -/
lemma exists_tiles (c : Cursor) (hplace : c.place = .behind before) :
    ∃ ls, Tiles before c.rest ls ∧ ∀ n, lexemes (ls.length + n) c =
      ls ++ List.replicate n (.ok (.endOfSource (.behind (before ++ c.rest)))) := by
  generalize hm : c.rest.length = m
  induction m using Nat.strongRecOn generalizing c before with
  | ind m ih =>
    have hanswers := c.answers_next
    cases hnext : c.next with
    | mk answer d =>
      rw [hnext] at hanswers
      cases hanswers with
      | finish hblank =>
        refine ⟨[], .nil hblank, fun n => ?_⟩
        rw [List.length_nil, Nat.zero_add, lexemes_of_blank hblank, hplace, Position.after_behind]
        rfl
      | @piece gap piece behind found hrest hgap _ hstarts =>
        have hstart : c.place.after gap = .behind (before ++ gap) := by
          rw [hplace, Position.after_behind]
        have hfinish : c.place.after (gap ++ piece) = .behind (before ++ gap ++ piece) := by
          rw [hplace, Position.after_behind, List.append_assoc]
        have hlt : behind.length < m := by
          have hpos := List.length_pos_iff.2 hstarts.ne_nil
          rw [← hm, hrest, List.length_append, List.length_append]
          omega
        obtain ⟨ls, htiles, hlexemes⟩ :=
          ih behind.length hlt ⟨behind, c.place.after (gap ++ piece)⟩ hfinish rfl
        have htiled := Tiles.cons hgap hstarts.ne_nil hstarts.ne_eof htiles
        rw [← hrest] at htiled
        refine ⟨_, htiled, fun n => ?_⟩
        have hend : before ++ gap ++ piece ++ behind = before ++ c.rest := by
          simp only [hrest, List.append_assoc]
        rw [List.length_cons, Nat.add_right_comm, lexemes, hnext, hstart, hfinish]
        dsimp only
        rw [← hfinish, hlexemes, hend]
        rfl

/-- All tokens of a tiling, or else its first error, are what the stream is made of. -/
lemma ofLexemes_append {ls : List (Except LexicalError Token)}
    (h : ∀ t, .ok t ∈ ls → t.kind ≠ .eof) (p : Position) (n : Nat) :
    TokenStream.ofLexemes (ls ++ List.replicate (n + 1) (.ok (.endOfSource p))) =
      (ls.mapM id).map fun tokens => ⟨tokens, .endOfSource p⟩ := by
  induction ls with
  | nil => rfl
  | cons l ls ih =>
    have hls := ih fun t ht => h t (.tail _ ht)
    rw [List.cons_append, List.mapM_cons]
    cases l with
    | error e => rfl
    | ok t =>
      rw [TokenStream.ofLexemes, if_neg (h t (.head _)), hls]
      cases ls.mapM id with
      | error e => rfl
      | ok tokens => rfl

/-- What reading a whole source gives. -/
structure Tiling (source : String) (ls : List (Except LexicalError Token)) : Prop where
  tiles : Tiles [] source.toList ls
  /-- The ranges are not empty, and each stands behind the one before it. -/
  between : Range.Between .origin (ls.map lexemeRange) (.behind source.toList)
  length_le : ls.length ≤ source.utf8ByteSize
  /-- Behind the lexemes, every reading gives the end of the source. -/
  lexemes_eq (n : Nat) : lexemes (ls.length + n) (.start source) =
    ls ++ List.replicate n (.ok (.endOfSource (.behind source.toList)))
  /-- The stream of tokens consists of the lexemes, or it is the first of them that is refused. -/
  ofSource_eq : TokenStream.ofSource source =
    (ls.mapM id).map fun tokens => ⟨tokens, .endOfSource (.behind source.toList)⟩

/-- Every source is tiled by what is read from it. -/
theorem exists_tiling (source : String) : ∃ ls, Tiling source ls := by
  have hplace : (start source).place = .behind [] := rfl
  obtain ⟨ls, htiles, hlexemes⟩ := exists_tiles _ hplace
  have hlength : ls.length ≤ source.length := by
    rw [← String.length_toList]
    exact htiles.length_le
  refine ⟨ls, htiles, htiles.between, ?_, hlexemes, ?_⟩
  · calc ls.length ≤ source.toList.length := htiles.length_le
      _ ≤ (String.ofList source.toList).utf8ByteSize := length_le_utf8ByteSize _
      _ = source.utf8ByteSize := by rw [String.ofList_toList]
  · obtain ⟨n, hn⟩ := Nat.exists_eq_add_of_le hlength
    rw [TokenStream.ofSource, hn, Nat.add_assoc, hlexemes]
    exact ofLexemes_append htiles.kind_ne_eof _ n

end Cursor

end BrighterCheck
