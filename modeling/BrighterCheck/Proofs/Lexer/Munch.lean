import BrighterCheck.Proofs.Lexer.Name
import BrighterCheck.Proofs.Lexer.StringLiteral
import Mathlib.Data.List.TakeWhile

/-!
# The longest token

Behind its blanks, a text starts with the longest piece that any token pattern matches, or with a
piece that is refused: the rest of the line behind a quote without a closing one, or a character
that no token starts with.
-/

namespace BrighterCheck.Cursor

open Regex TokenKind

/-- The text starts with the token `piece` of the kind `kind`. -/
structure IsToken (text : List Char) (kind : TokenKind) (piece : List Char) : Prop where
  isPrefix : piece <+: text
  ne_nil : piece ≠ []
  /-- The pattern of the kind matches the piece, and it is the first pattern that does. -/
  first : ∃ before pattern after, patterns = before ++ (kind, pattern) :: after ∧
    pattern.Matches piece ∧ ∀ rule ∈ before, ¬ rule.2.Matches piece
  /-- No longer prefix is matched by any pattern. -/
  longest : ∀ longer, longer <+: text → piece.length < longer.length →
    ∀ rule ∈ patterns, ¬ rule.2.Matches longer
  /-- In the shape of a name, keywords and the comment `rem` come before identifiers. -/
  names : Pattern.identifier.Matches piece → kind.Names (String.ofList piece)
  /-- A string is closed on its line. -/
  closed : ∀ cs, text = '"' :: cs → ∃ body behind, Closes cs body behind

/-- The text starts with the refused piece `piece`. -/
inductive IsRefused (text : List Char) : LexicalFault → List Char → Prop where
  | unterminated {cs : List Char} :
      text = '"' :: cs → (∀ body behind, ¬ Closes cs body behind) →
      IsRefused text .unterminatedString ('"' :: cs.takeWhile onLine)
  | unexpected {c : Char} {cs : List Char} :
      text = c :: cs → c ≠ '"' →
      (∀ piece, piece ≠ [] → piece <+: text → ∀ rule ∈ patterns, ¬ rule.2.Matches piece) →
      IsRefused text (.unexpectedCharacter c) [c]

/-- The text starts with a piece, which is a token or is refused. -/
def StartsWith (text : List Char) : Except LexicalFault TokenKind → List Char → Prop
  | .ok kind, piece => IsToken text kind piece
  | .error fault, piece => IsRefused text fault piece

/-- Where no token is found, not even an empty one is. -/
lemma longest_eq_none {text : List Char}
    (h : ∀ kind n, longest patterns text = some (kind, n + 1) → False) :
    longest patterns text = none := by
  cases hlongest : longest patterns text with
  | none => rfl
  | some found =>
    obtain ⟨kind, n⟩ := found
    cases n with
    | zero =>
      have hfirst := (reaches_of_longest hlongest).firstMatch_eq
      exact absurd (accepting_patterns.symm.trans hfirst) (by simp)
    | succ n => exact (h kind n hlongest).elim

lemma isToken_of_reaches {text : List Char} {kind : TokenKind} {n : Nat}
    (h : Reaches patterns text kind n)
    (hclosed : ∀ cs, text = '"' :: cs → ∃ body behind, Closes cs body behind) :
    IsToken text kind (text.take n) where
  isPrefix := List.take_prefix n text
  ne_nil := by
    intro hnil
    have hfirst := h.firstMatch_eq
    rw [hnil] at hfirst
    exact absurd (accepting_patterns.symm.trans hfirst) (by simp)
  first := by
    obtain ⟨before, pattern, after, hrules, hmatch, hbefore⟩ :=
      firstMatch_eq_some_iff.1 h.firstMatch_eq
    exact ⟨before, pattern, after, hrules, hmatch, hbefore⟩
  longest longer hfront hlt := by
    apply h.not_matches hfront
    rwa [List.length_take_of_le h.le_length] at hlt
  names hname := by
    have hfirst := (firstMatch_identifier hname).symm.trans h.firstMatch_eq
    rw [← Option.some.inj hfirst]
    exact names_ofName _
  closed := hclosed

section Unique

variable {text piece piece' : List Char} {kind kind' : TokenKind} {fault fault' : LexicalFault}

lemma IsToken.length_le (h : IsToken text kind piece) (h' : IsToken text kind' piece') :
    piece'.length ≤ piece.length := by
  obtain ⟨before, pattern, after, hrules, hmatch, -⟩ := h'.first
  apply Nat.not_lt.1
  intro hlt
  have hmem : (kind', pattern) ∈ patterns := by simp [hrules]
  exact h.longest piece' h'.isPrefix hlt _ hmem hmatch

/-- A text starts with one token at most. -/
lemma IsToken.unique (h : IsToken text kind piece) (h' : IsToken text kind' piece') :
    kind = kind' ∧ piece = piece' := by
  have hpiece : piece = piece' :=
    (List.prefix_of_prefix_length_le h.isPrefix h'.isPrefix (h'.length_le h)).eq_of_length_le
      (h.length_le h')
  subst hpiece
  have hfirst := firstMatch_eq_some_iff.2 h.first
  have hfirst' := firstMatch_eq_some_iff.2 h'.first
  exact ⟨Option.some.inj (hfirst.symm.trans hfirst'), rfl⟩

lemma IsToken.not_isRefused (h : IsToken text kind piece) : ¬ IsRefused text fault piece' := by
  intro h'
  cases h' with
  | unterminated htext hclosed =>
    obtain ⟨body, behind, hcloses⟩ := h.closed _ htext
    exact hclosed body behind hcloses
  | unexpected _ _ hnone =>
    obtain ⟨before, pattern, after, hrules, hmatch, -⟩ := h.first
    have hmem : (kind, pattern) ∈ patterns := by simp [hrules]
    exact hnone piece h.ne_nil h.isPrefix _ hmem hmatch

/-- A text is refused in one way at most. -/
lemma IsRefused.unique (h : IsRefused text fault piece) (h' : IsRefused text fault' piece') :
    fault = fault' ∧ piece = piece' := by
  cases h with
  | unterminated htext _ =>
    subst htext
    cases h' with
    | unterminated htext' _ =>
      cases htext'
      exact ⟨rfl, rfl⟩
    | unexpected htext' hquote _ => exact absurd (List.cons.inj htext').1.symm hquote
  | unexpected htext hquote _ =>
    subst htext
    cases h' with
    | unterminated htext' _ => exact absurd (List.cons.inj htext').1 hquote
    | unexpected htext' _ _ =>
      cases htext'
      exact ⟨rfl, rfl⟩

/-- A text starts with one piece at most. -/
theorem StartsWith.unique {found found' : Except LexicalFault TokenKind}
    (h : StartsWith text found piece) (h' : StartsWith text found' piece') :
    found = found' ∧ piece = piece' := by
  cases found with
  | ok kind =>
    cases found' with
    | ok kind' =>
      obtain ⟨rfl, rfl⟩ := IsToken.unique h h'
      exact ⟨rfl, rfl⟩
    | error fault' => exact absurd h' (IsToken.not_isRefused h)
  | error fault =>
    cases found' with
    | ok kind' => exact absurd h (IsToken.not_isRefused h')
    | error fault' =>
      obtain ⟨rfl, rfl⟩ := IsRefused.unique h h'
      exact ⟨rfl, rfl⟩

lemma StartsWith.ne_nil {found : Except LexicalFault TokenKind} (h : StartsWith text found piece) :
    piece ≠ [] := by
  cases found with
  | ok kind => exact IsToken.ne_nil h
  | error fault =>
    cases h with
    | unterminated => exact List.cons_ne_nil _ _
    | unexpected => exact List.cons_ne_nil _ _

end Unique

/-- Only the pattern of strings goes on behind a quote. -/
lemma advance_quote : advance '"' patterns = advance '"' [(.literal .string, Pattern.string)] := by
  rfl

lemma firstMatch_quote (cs : List Char) :
    firstMatch patterns ('"' :: cs) =
      if Pattern.string.accepts ('"' :: cs) then some (.literal .string) else none := by
  rw [← firstMatch_advance, advance_quote, firstMatch_advance, firstMatch_singleton]

/-- A string that is closed reaches up to its closing quote. -/
lemma reaches_of_closes {cs body behind : List Char} (h : Closes cs body behind) :
    Reaches patterns ('"' :: cs) (.literal .string) (body.length + 2) where
  le_length := by
    rw [h.eq]
    simp
  firstMatch_eq := by
    have htake : cs.take (body.length + 1) = body ++ ['"'] := by
      rw [h.eq, List.append_cons]
      exact List.take_left' (by simp)
    rw [List.take_succ_cons, htake, firstMatch_quote, if_pos]
    exact accepts_iff.2 (matches_string_iff.2 ⟨body, rfl, h.stringBody⟩)
  firstMatch_longer m hm hle := by
    obtain ⟨m, rfl⟩ := Nat.exists_eq_succ_of_ne_zero (Nat.ne_zero_of_lt hm)
    rw [List.take_succ_cons, firstMatch_quote, if_neg]
    intro haccepts
    obtain ⟨body', he, hbody'⟩ := matches_string_iff.1 (accepts_iff.1 haccepts)
    have htake : cs.take m = body' ++ ['"'] := (List.cons.inj he).2
    -- A longer string would go past the closing quote.
    have hsplit : body ++ '"' :: behind = body' ++ '"' :: cs.drop m := by
      rw [← h.eq, List.append_cons, ← htake, List.take_append_drop]
    have hlength := h.stringBody.length_le h.head?_ne hbody' hsplit
    have hm' := congrArg List.length htake
    simp only [List.length_take, List.length_append, List.length_cons, List.length_nil]
      at hm' hle
    omega

/-- Scanning a text agrees with the patterns. -/
theorem startsWith_scan (x : Char) (xs : List Char) :
    StartsWith (x :: xs) (scan x xs).1 ((x :: xs).take (scan x xs).2) := by
  unfold scan
  split
  case isTrue hx =>
    subst hx
    split
    case h_1 n h =>
      obtain ⟨body, behind, hcloses, rfl⟩ := closes_of_stringTail h
      apply isToken_of_reaches (reaches_of_closes hcloses)
      intro cs hcs
      cases hcs
      exact ⟨body, behind, hcloses⟩
    case h_2 n h =>
      rw [length_of_stringTail h, List.take_succ_cons,
        ← List.prefix_iff_eq_take.1 (List.takeWhile_prefix onLine)]
      apply IsRefused.unterminated rfl
      intro body behind hcloses
      rw [hcloses.stringTail_eq] at h
      cases h
  case isFalse hx =>
    split
    case h_1 kind n h =>
      apply isToken_of_reaches (reaches_of_longest h)
      intro cs hcs
      exact absurd (List.cons.inj hcs).1 hx
    case h_2 h =>
      apply IsRefused.unexpected rfl hx
      intro piece _ hfront
      apply firstMatch_eq_none_iff.1
      rw [List.prefix_iff_eq_take.1 hfront]
      exact firstMatch_of_longest_eq_none (longest_eq_none h) _

/-- A blank text. -/
def Blank (gap : List Char) : Prop :=
  ∀ x ∈ gap, isBlank x = true

/-- The token or the error that a piece of text at some range is. -/
def lexeme (found : Except LexicalFault TokenKind) (piece : List Char) (range : Range) :
    Except LexicalError Token :=
  match found with
  | .ok kind => .ok ⟨kind, String.ofList piece, range⟩
  | .error fault => .error ⟨fault, range⟩

/--
What reading from a cursor answers. Behind all blanks stands the end of the source or a piece, and
reading goes on behind the piece.
-/
inductive Answers (c : Cursor) : Except LexicalError Token → Cursor → Prop where
  | finish :
      Blank c.rest →
      Answers c (.ok (.endOfSource (c.place.after c.rest))) ⟨[], c.place.after c.rest⟩
  | piece {gap piece behind : List Char} {found : Except LexicalFault TokenKind} :
      c.rest = gap ++ (piece ++ behind) → Blank gap →
      (∀ x ∈ (piece ++ behind).head?, isBlank x = false) →
      StartsWith (piece ++ behind) found piece →
      Answers c (lexeme found piece ⟨c.place.after gap, c.place.after (gap ++ piece)⟩)
        ⟨behind, c.place.after (gap ++ piece)⟩

lemma skipBlanks_eq (c : Cursor) :
    c.skipBlanks = ⟨c.rest.dropWhile isBlank, c.place.after (c.rest.takeWhile isBlank)⟩ := by
  have htake : c.rest.take (c.rest.takeWhile isBlank).length = c.rest.takeWhile isBlank :=
    (List.prefix_iff_eq_take.1 (List.takeWhile_prefix isBlank)).symm
  have hdrop : c.rest.drop (c.rest.takeWhile isBlank).length = c.rest.dropWhile isBlank := by
    have hsplit := List.take_append_drop (c.rest.takeWhile isBlank).length c.rest
    rw [htake] at hsplit
    exact List.append_cancel_left (hsplit.trans List.takeWhile_append_dropWhile.symm)
  rw [skipBlanks, forward, htake, hdrop]

/-- Behind its blanks, the piece that a text starts with is read. -/
lemma next_of_rest_eq_cons {c : Cursor} {x : Char} {xs : List Char}
    (h : c.skipBlanks.rest = x :: xs) :
    c.next = (lexeme (scan x xs).1 ((x :: xs).take (scan x xs).2)
      ⟨c.skipBlanks.place, (c.skipBlanks.forward (scan x xs).2).place⟩,
      c.skipBlanks.forward (scan x xs).2) := by
  cases hs : scan x xs with
  | mk found n =>
    cases found with
    | ok kind => exact next_of_scan_ok h hs
    | error fault => exact next_of_scan_error h hs

lemma answers_next (c : Cursor) : c.Answers c.next.1 c.next.2 := by
  have hskip := c.skipBlanks_eq
  have hsplit : c.rest.takeWhile isBlank ++ c.rest.dropWhile isBlank = c.rest :=
    List.takeWhile_append_dropWhile
  have hblank : Blank (c.rest.takeWhile isBlank) := fun x hx => List.mem_takeWhile_imp hx
  cases hrest : c.rest.dropWhile isBlank with
  | nil =>
    rw [hrest] at hskip
    rw [hrest, List.append_nil] at hsplit
    rw [hsplit] at hskip hblank
    rw [next_of_rest_eq_nil (congrArg Cursor.rest hskip), hskip]
    exact .finish hblank
  | cons x xs =>
    have hhead : isBlank x = false := by
      have hnot := List.head_dropWhile_not isBlank (l := c.rest) (by simp [hrest])
      simpa [hrest] using hnot
    rw [hrest] at hskip hsplit
    have htext := congrArg Cursor.rest hskip
    have hstarts := startsWith_scan x xs
    have hnext := next_of_rest_eq_cons htext
    cases hs : scan x xs with
    | mk found n =>
      have hcut : (x :: xs).take n ++ (x :: xs).drop n = x :: xs := List.take_append_drop _ _
      have hplace : c.skipBlanks.forward n = ⟨(x :: xs).drop n,
          c.place.after (c.rest.takeWhile isBlank ++ (x :: xs).take n)⟩ := by
        rw [hskip, forward, Position.after_append]
      rw [hs] at hnext hstarts
      rw [hnext, hplace, hskip]
      have hstarts : StartsWith ((x :: xs).take n ++ (x :: xs).drop n) found
          ((x :: xs).take n) := by
        rw [hcut]
        exact hstarts
      apply Answers.piece _ hblank _ hstarts
      · rw [hcut, hsplit]
      · intro y hy
        rw [hcut] at hy
        cases hy
        exact hhead

/-- The blanks in front of a text are told apart from it. -/
lemma Blank.unique {gap gap' text text' : List Char} (h : Blank gap) (h' : Blank gap')
    (hhead : ∀ x ∈ text.head?, isBlank x = false) (hhead' : ∀ x ∈ text'.head?, isBlank x = false)
    (he : gap ++ text = gap' ++ text') : gap = gap' ∧ text = text' := by
  induction gap generalizing gap' with
  | nil =>
    cases gap' with
    | nil => exact ⟨rfl, he⟩
    | cons x gap' =>
      have hx := h' x (.head _)
      rw [List.nil_append] at he
      rw [hhead x (by rw [he]; rfl)] at hx
      cases hx
  | cons x gap ih =>
    have hx := h x (.head _)
    cases gap' with
    | nil =>
      rw [List.nil_append] at he
      rw [hhead' x (by rw [← he]; rfl)] at hx
      cases hx
    | cons x' gap' =>
      obtain ⟨rfl, htail⟩ := List.cons.inj he
      obtain ⟨rfl, rfl⟩ :=
        ih (fun y hy => h y (.tail _ hy)) (fun y hy => h' y (.tail _ hy)) htail
      exact ⟨rfl, rfl⟩

section Deterministic

variable {c d d' : Cursor} {answer answer' : Except LexicalError Token}

/-- Where only blanks are left, there is no piece. -/
lemma Blank.not_startsWith {gap piece behind : List Char} {found : Except LexicalFault TokenKind}
    (h : Blank c.rest) (hrest : c.rest = gap ++ (piece ++ behind))
    (hhead : ∀ x ∈ (piece ++ behind).head?, isBlank x = false) :
    ¬ StartsWith (piece ++ behind) found piece := by
  intro hstarts
  cases piece with
  | nil => exact hstarts.ne_nil rfl
  | cons x piece =>
    have hx := h x (by simp [hrest])
    rw [hhead x rfl] at hx
    cases hx

/-- From one cursor one answer is read. -/
lemma Answers.unique (h : c.Answers answer d) (h' : c.Answers answer' d') :
    answer = answer' ∧ d = d' := by
  cases h with
  | finish hblank =>
    cases h' with
    | finish => exact ⟨rfl, rfl⟩
    | piece hrest _ hhead hstarts => exact absurd hstarts (hblank.not_startsWith hrest hhead)
  | piece hrest hgap hhead hstarts =>
    cases h' with
    | finish hblank => exact absurd hstarts (hblank.not_startsWith hrest hhead)
    | piece hrest' hgap' hhead' hstarts' =>
      obtain ⟨rfl, htext⟩ := hgap.unique hgap' hhead hhead' (hrest.symm.trans hrest')
      rw [← htext] at hstarts'
      obtain ⟨rfl, rfl⟩ := hstarts.unique hstarts'
      cases List.append_cancel_left htext
      exact ⟨rfl, rfl⟩

/-- Reading from a cursor finds the longest token, or refuses what is none; nothing else is read. -/
theorem next_eq_iff : c.next = (answer, d) ↔ c.Answers answer d := by
  constructor
  · intro h
    have hanswers := c.answers_next
    rw [h] at hanswers
    exact hanswers
  · intro h
    obtain ⟨hanswer, hd⟩ := c.answers_next.unique h
    exact Prod.ext hanswer hd

end Deterministic

section Pieces

variable {kind : TokenKind} {piece behind : List Char}

/-- No token starts with a blank. -/
lemma IsToken.isBlank_head {text : List Char} (h : IsToken text kind piece) :
    ∀ x ∈ text.head?, isBlank x = false := by
  intro x hx
  obtain ⟨y, ys, rfl⟩ := List.exists_cons_of_ne_nil h.ne_nil
  obtain ⟨rest, rfl⟩ := h.isPrefix
  cases hx
  apply Bool.eq_false_iff.2
  intro hblank
  have hnone : Regex.advance x patterns = [] := by
    have hthree : x = ' ' ∨ x = '\t' ∨ x = '\x0c' := by simpa [isBlank, or_assoc] using hblank
    rcases hthree with rfl | rfl | rfl
    · rfl
    · rfl
    · rfl
  have hfirst := Regex.firstMatch_eq_some_iff.2 h.first
  rw [← Regex.firstMatch_advance, hnone] at hfirst
  cases hfirst

lemma IsToken.kind_ne_eof {text : List Char} (h : IsToken text kind piece) : kind ≠ .eof := by
  obtain ⟨before, pattern, after, hrules, -, -⟩ := h.first
  exact ne_eof_of_mem (by simp [hrules])

lemma next_of_isToken {gap : List Char} (hgap : Blank gap)
    (h : IsToken (piece ++ behind) kind piece) (p : Position) :
    (⟨gap ++ (piece ++ behind), p⟩ : Cursor).next =
      (.ok ⟨kind, String.ofList piece, ⟨p.after gap, p.after (gap ++ piece)⟩⟩,
        ⟨behind, p.after (gap ++ piece)⟩) := by
  have hanswers : Answers ⟨gap ++ (piece ++ behind), p⟩
      (lexeme (.ok kind) piece ⟨p.after gap, p.after (gap ++ piece)⟩)
      ⟨behind, p.after (gap ++ piece)⟩ :=
    .piece rfl hgap h.isBlank_head h
  obtain ⟨hanswer, hd⟩ := (answers_next _).unique hanswers
  exact Prod.ext hanswer hd

end Pieces

end BrighterCheck.Cursor
