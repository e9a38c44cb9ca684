import BrighterCheck.Lexer.Cursor
import BrighterCheck.Proofs.Lexer.Longest

/-!
# Streams of tokens

`Yields c ts d` says that reading from the cursor `c` on gives the tokens `ts` and ends at `d`. A
source is a token stream exactly if its tokens lead from its start to a cursor behind which there is
nothing but blanks.
-/

namespace BrighterCheck

/-- No pattern stands for the end of the source. -/
lemma TokenKind.ne_eof_of_mem {k : TokenKind} (h : k ∈ patterns.map Prod.fst) : k ≠ .eof := by
  rintro rfl
  simp [patterns] at h

/-- A dot is in no class of the patterns of keywords and names. -/
lemma TokenKind.all_dotless : ∀ rule ∈ patterns, rule.1.isNameLike = true →
    rule.2.all (fun p => !p '.') = true := by
  have hall : patterns.all (fun rule => !rule.1.isNameLike || rule.2.all fun p => !p '.') = true :=
    rfl
  intro rule hrule hname
  simpa [hname] using List.all_eq_true.1 hall rule hrule

namespace Cursor

variable {c d e : Cursor}

lemma forward_rest_length (c : Cursor) (n : Nat) :
    (c.forward n).rest.length = c.rest.length - n :=
  List.length_drop

lemma skipBlanks_rest_length_le (c : Cursor) : c.skipBlanks.rest.length ≤ c.rest.length := by
  rw [skipBlanks, forward_rest_length]
  exact Nat.sub_le _ _

lemma stringTail_of_ne {c : Char} (hc : c ≠ '"') (cs : List Char) :
    stringTail (c :: cs) =
      if c = '\r' ∨ c = '\n' then (0, false) else ((stringTail cs).1 + 1, (stringTail cs).2) := by
  rw [stringTail]
  · exact fun _ h => absurd h hc
  · exact fun h => absurd h hc

lemma stringTail_of_head?_ne {cs : List Char} (hcs : cs.head? ≠ some '"') :
    stringTail ('"' :: cs) = (1, true) := by
  rw [stringTail]
  rintro ds rfl
  exact hcs rfl

/-- What stands behind the end of a line does not close a string on the line. -/
lemma stringTail_append_break {b : Char} (hb : b = '\r' ∨ b = '\n') (cs ds : List Char) :
    stringTail (cs ++ b :: ds) = stringTail cs := by
  induction cs using stringTail.induct with
  | case1 cs n closed h ih => rw [List.cons_append, List.cons_append, stringTail, stringTail, ih]
  | case2 cs hcs =>
    have hhead : cs.head? ≠ some '"' := by
      intro hhead
      obtain ⟨cs', rfl⟩ := List.head?_eq_some_iff.1 hhead
      exact hcs cs' rfl
    have hhead' : (cs ++ b :: ds).head? ≠ some '"' := by
      cases cs with
      | nil =>
        intro hquote
        cases hquote
        revert hb
        decide
      | cons c cs => exact hhead
    rw [stringTail_of_head?_ne hhead]
    exact stringTail_of_head?_ne hhead'
  | case3 =>
    have hquote : b ≠ '"' := by
      rintro rfl
      revert hb
      decide
    rw [List.nil_append, stringTail_of_ne hquote, if_pos hb]
    rfl
  | case4 c cs hquotes hquote hend =>
    rw [List.cons_append, stringTail_of_ne hquote, stringTail_of_ne hquote, if_pos hend,
      if_pos hend]
  | case5 c cs hquotes hquote hend n closed h ih =>
    rw [List.cons_append, stringTail_of_ne hquote, stringTail_of_ne hquote, ih]

lemma stringTail_le (cs : List Char) : (stringTail cs).1 ≤ cs.length := by
  induction cs using stringTail.induct with
  | case1 cs n closed h ih =>
    rw [stringTail]
    exact Nat.add_le_add_right ih 2
  | case2 cs hcs =>
    rw [stringTail]
    · exact Nat.succ_le_succ (Nat.zero_le _)
    · exact hcs
  | case3 => exact Nat.le_refl 0
  | case4 c cs hquotes hquote hend =>
    rw [stringTail_of_ne hquote, if_pos hend]
    exact Nat.zero_le _
  | case5 c cs hquotes hquote hend n closed h ih =>
    rw [stringTail_of_ne hquote, if_neg hend]
    exact Nat.succ_le_succ ih

/-- Every piece has at least one character. -/
lemma scan_pos (x : Char) (xs : List Char) : 0 < (scan x xs).2 := by
  unfold scan
  split
  · split
    · exact Nat.succ_pos _
    · exact Nat.succ_pos _
  · split
    · exact Nat.succ_pos _
    · exact Nat.one_pos

/-- No piece reaches over the end of the text. -/
lemma scan_le (x : Char) (xs : List Char) : (scan x xs).2 ≤ xs.length + 1 := by
  have htail := stringTail_le xs
  unfold scan
  split
  · split
    case h_1 h | h_2 h =>
      rw [h] at htail
      exact Nat.succ_le_succ htail
  · split
    case h_1 h => exact (Regex.of_longest h).2
    case h_2 => exact Nat.succ_le_succ (Nat.zero_le _)

/-- What stands behind the end of a line does not change the piece in front of it. -/
lemma scan_append_break {x b : Char} (hx : ¬ (x = '\r' ∨ x = '\n')) (hb : b = '\r' ∨ b = '\n')
    (xs ds : List Char) : scan x (xs ++ b :: ds) = scan x xs := by
  rw [scan, scan, stringTail_append_break hb, TokenKind.longest_patterns_append_break hx hb]

lemma scan_newline (cs : List Char) : scan '\n' cs = (.ok .newline, 1) := by
  rw [scan, if_neg (by decide), TokenKind.longest_newline]

lemma scan_return (cs : List Char) : scan '\r' ('\n' :: cs) = (.ok .newline, 2) := by
  rw [scan, if_neg (by decide), TokenKind.longest_return]
  rfl

/-- No piece of text stands for the end of the source. -/
lemma scan_ne_eof (x : Char) (xs : List Char) : (scan x xs).1 ≠ .ok .eof := by
  unfold scan
  split
  · split
    · nofun
    · nofun
  · split
    case h_1 kind n h =>
      intro hk
      cases hk
      exact TokenKind.ne_eof_of_mem (Regex.of_longest h).1 rfl
    case h_2 => nofun

/-- The end of the source: nothing but blanks is left. -/
lemma next_of_rest_eq_nil (h : c.skipBlanks.rest = []) :
    c.next = (.ok (.endOfSource c.skipBlanks.place), c.skipBlanks) := by
  unfold next
  simp only [h]

lemma next_of_scan_ok {x : Char} {xs : List Char} {kind : TokenKind} {n : Nat}
    (hr : c.skipBlanks.rest = x :: xs) (hs : scan x xs = (.ok kind, n)) :
    c.next = (.ok ⟨kind, String.ofList ((x :: xs).take n),
      ⟨c.skipBlanks.place, (c.skipBlanks.forward n).place⟩⟩, c.skipBlanks.forward n) := by
  unfold next
  simp only [hr, hs]

lemma next_of_scan_error {x : Char} {xs : List Char} {fault : LexicalFault} {n : Nat}
    (hr : c.skipBlanks.rest = x :: xs) (hs : scan x xs = (.error fault, n)) :
    c.next = (.error ⟨fault, ⟨c.skipBlanks.place, (c.skipBlanks.forward n).place⟩⟩,
      c.skipBlanks.forward n) := by
  unfold next
  simp only [hr, hs]

/-- A token that is not the end of the source is what the text starts with behind its blanks. -/
inductive Takes (c : Cursor) : Token → Cursor → Prop where
  | mk {x : Char} {xs : List Char} {kind : TokenKind} {n : Nat} :
      c.skipBlanks.rest = x :: xs → scan x xs = (.ok kind, n) →
      Takes c ⟨kind, String.ofList ((x :: xs).take n),
        ⟨c.skipBlanks.place, (c.skipBlanks.forward n).place⟩⟩ (c.skipBlanks.forward n)

lemma Takes.next_eq {t : Token} (h : Takes c t d) : c.next = (.ok t, d) := by
  cases h with
  | mk hr hs => exact next_of_scan_ok hr hs

lemma next_eq_ok {t : Token} :
    c.next = (.ok t, d) ↔
      c.skipBlanks.rest = [] ∧ t = .endOfSource c.skipBlanks.place ∧ d = c.skipBlanks ∨
        Takes c t d := by
  constructor
  · intro h
    cases hr : c.skipBlanks.rest with
    | nil =>
      rw [next_of_rest_eq_nil hr] at h
      cases h
      exact .inl ⟨rfl, rfl, rfl⟩
    | cons x xs =>
      cases hs : scan x xs with
      | mk found n =>
        cases found with
        | error fault =>
          rw [next_of_scan_error hr hs] at h
          cases h
        | ok kind =>
          rw [next_of_scan_ok hr hs] at h
          cases h
          exact .inr (.mk hr hs)
  · rintro (⟨hr, rfl, rfl⟩ | h)
    · exact next_of_rest_eq_nil hr
    · exact h.next_eq

lemma Takes.kind_ne_eof {t : Token} (h : Takes c t d) : t.kind ≠ .eof := by
  cases h with
  | mk hr hs =>
    rintro rfl
    exact scan_ne_eof _ _ (congrArg Prod.fst hs)

/-- No name and no keyword has a dot in it. -/
lemma Takes.dot_not_mem {t : Token} (h : Takes c t d) (hk : t.kind.isNameLike = true) :
    '.' ∉ t.text.toList := by
  cases h with
  | @mk x xs kind n hr hs =>
    rw [String.toList_ofList]
    unfold scan at hs
    split at hs
    case isTrue =>
      split at hs
      case h_1 =>
        cases hs
        cases hk
      case h_2 => cases hs
    case isFalse =>
      split at hs
      case h_1 kind' m hlongest =>
        cases hs
        obtain ⟨before, pattern, after, hrules, hmatch, -⟩ :=
          Regex.firstMatch_eq_some_iff.1 (Regex.reaches_of_longest hlongest).firstMatch_eq
        have hmem : (kind, pattern) ∈ TokenKind.patterns := by simp [hrules]
        exact hmatch.not_mem (TokenKind.all_dotless _ hmem hk)
      case h_2 => cases hs

/-- Every token takes text. -/
lemma Takes.rest_length_lt {t : Token} (h : Takes c t d) : d.rest.length < c.rest.length := by
  cases h with
  | @mk x xs kind n hr hs =>
    have hn : 0 < n := by simpa [hs] using scan_pos x xs
    have hc : (x :: xs).length ≤ c.rest.length := hr ▸ skipBlanks_rest_length_le c
    rw [forward_rest_length, hr]
    simp only [List.length_cons] at hc ⊢
    omega

/-- Reading from a cursor on gives some tokens and ends at another cursor. -/
inductive Yields : Cursor → List Token → Cursor → Prop where
  | nil (c : Cursor) : Yields c [] c
  | cons {c d e : Cursor} {t : Token} {ts : List Token} :
      Takes c t d → Yields d ts e → Yields c (t :: ts) e

lemma Yields.append {ts us : List Token} (h : Yields c ts d) (h' : Yields d us e) :
    Yields c (ts ++ us) e := by
  induction h with
  | nil => exact h'
  | cons ht _ ih => exact .cons ht (ih h')

lemma Yields.kind_ne_eof {ts : List Token} (h : Yields c ts d) : ∀ t ∈ ts, t.kind ≠ .eof := by
  induction h with
  | nil => exact fun _ ht => nomatch ht
  | cons ht _ ih =>
    intro t hmem
    rcases List.mem_cons.1 hmem with rfl | hmem
    · exact ht.kind_ne_eof
    · exact ih t hmem

end Cursor

namespace TokenStream

open Cursor

/-- A stream of tokens with the place where the source ends. -/
structure Spells (s : TokenStream) (c d : Cursor) : Prop where
  yields : Yields c s.tokens d
  rest_eq : d.skipBlanks.rest = []
  eof_eq : s.eof = .endOfSource d.skipBlanks.place

lemma spells_of_ofLexemes {n : Nat} {c : Cursor} {s : TokenStream} (hn : c.rest.length < n)
    (h : ofLexemes (lexemes n c) = .ok s) : ∃ d, s.Spells c d := by
  induction n generalizing c s with
  | zero => exact absurd hn (Nat.not_lt_zero _)
  | succ n ih =>
    cases hc : c.next with
    | mk lexeme d =>
      rw [lexemes, hc] at h
      cases lexeme with
      | error e => cases h
      | ok t =>
        rw [ofLexemes] at h
        rcases next_eq_ok.1 hc with ⟨hr, rfl, rfl⟩ | ht
        · cases h
          exact ⟨c, .nil c, hr, rfl⟩
        · rw [if_neg ht.kind_ne_eof] at h
          cases hs : ofLexemes (lexemes n d) with
          | error e => rw [hs] at h; cases h
          | ok s' =>
            rw [hs] at h
            cases h
            have hlt := ht.rest_length_lt
            obtain ⟨e, he⟩ := ih (by omega) hs
            exact ⟨e, .cons ht he.yields, he.rest_eq, he.eof_eq⟩

lemma ofLexemes_of_spells {n : Nat} {c d : Cursor} {s : TokenStream} (hn : c.rest.length < n)
    (h : s.Spells c d) : ofLexemes (lexemes n c) = .ok s := by
  obtain ⟨ts, eof⟩ := s
  obtain ⟨hy, hr, rfl⟩ := h
  dsimp only at hy hr
  induction hy generalizing n with
  | nil c =>
    obtain ⟨n, rfl⟩ := Nat.exists_eq_succ_of_ne_zero (Nat.ne_zero_of_lt hn)
    rw [lexemes, next_of_rest_eq_nil hr]
    rfl
  | cons ht _ ih =>
    obtain ⟨n, rfl⟩ := Nat.exists_eq_succ_of_ne_zero (Nat.ne_zero_of_lt hn)
    have hlt := ht.rest_length_lt
    rw [lexemes, next_eq_ok.2 (.inr ht)]
    dsimp only [ofLexemes]
    rw [if_neg ht.kind_ne_eof, ih (by omega) hr]
    rfl

/-- A source is a stream of tokens exactly if its tokens lead from its start to its end. -/
theorem ofSource_eq_ok {source : String} {s : TokenStream} :
    ofSource source = .ok s ↔ ∃ d, s.Spells (.start source) d :=
  ⟨spells_of_ofLexemes (Nat.lt_succ_self _),
    fun ⟨_, h⟩ => ofLexemes_of_spells (Nat.lt_succ_self _) h⟩

/-- No token but the last stands for the end of the source. -/
structure IsClosed (s : TokenStream) : Prop where
  kind_eof : s.eof.kind = .eof
  kinds : ∀ t ∈ s.tokens, t.kind ≠ .eof

section Agreement

variable {s s' : TokenStream}

/-- A token of a stream stands before its end, or it is the end. -/
lemma getElem?_toList {i : Nat} {t : Token} (h : s.toList[i]? = some t) :
    s.tokens[i]? = some t ∨ i = s.tokens.length ∧ t = s.eof := by
  rcases Nat.lt_or_ge i s.tokens.length with hlt | hle
  · rw [toList, List.getElem?_append_left hlt] at h
    exact .inl h
  · rw [toList, List.getElem?_append_right hle, List.getElem?_singleton] at h
    split at h
    case isTrue hzero => exact .inr ⟨by omega, (Option.some.inj h).symm⟩
    case isFalse => cases h

/-- Where a stream agrees with the tokens before the end of another one, it is not at its end. -/
lemma exists_tokens_eq (hs : s.IsClosed) (hs' : s'.IsClosed) (front : List Token)
    {old : List Token} (htokens : s.tokens = front ++ old)
    (hagree : ∀ j < front.length, s'.toList[j]? = s.toList[j]?) :
    ∃ new, s'.tokens = front ++ new := by
  have hfront : front <+: s'.tokens := by
    refine List.prefix_iff_getElem?.2 fun j hj => ?_
    have hj' : s'.toList[j]? = some front[j] := by
      rw [hagree j hj, toList, htokens, List.append_assoc, List.getElem?_append_left hj,
        List.getElem?_eq_getElem hj]
    rcases getElem?_toList hj' with h | ⟨-, heof⟩
    · exact h
    · have hmem : front[j] ∈ s.tokens := htokens ▸ List.mem_append_left _ (List.getElem_mem hj)
      exact absurd (heof ▸ hs'.kind_eof) (hs.kinds _ hmem)
  obtain ⟨new, hnew⟩ := hfront
  exact ⟨new, hnew.symm⟩

/-- Streams that agree up to the end of the one are equal. -/
lemma eq_of_agrees (hs : s.IsClosed) (hs' : s'.IsClosed)
    (hagree : ∀ j ≤ s.tokens.length, s'.toList[j]? = s.toList[j]?) : s' = s := by
  obtain ⟨new, hnew⟩ := exists_tokens_eq hs hs' s.tokens (List.append_nil _).symm
    fun j hj => hagree j (Nat.le_of_lt hj)
  have hend : s'.toList[s.tokens.length]? = some s.eof := by
    rw [hagree _ (Nat.le_refl _), toList, List.getElem?_concat_length]
  rcases getElem?_toList hend with hinner | ⟨hlength, heof⟩
  · exact absurd hs.kind_eof (hs'.kinds _ (List.mem_of_getElem? hinner))
  · have hnil : new = [] := by
      rw [hnew, List.length_append] at hlength
      exact List.length_eq_zero_iff.1 (by omega)
    rw [hnil, List.append_nil] at hnew
    cases s
    cases s'
    exact congr (congrArg TokenStream.mk hnew) heof.symm

end Agreement

lemma Spells.dot_not_mem {s : TokenStream} {c d : Cursor} (h : s.Spells c d) :
    ∀ t ∈ s.tokens, t.kind.isNameLike = true → '.' ∉ t.text.toList := by
  obtain ⟨tokens, eof⟩ := s
  obtain ⟨hyields, -, -⟩ := h
  dsimp only at hyields ⊢
  induction hyields with
  | nil => exact fun _ ht => nomatch ht
  | cons htakes _ ih =>
    intro t hmem
    cases List.mem_cons.1 hmem with
    | inl hhead =>
      subst hhead
      exact htakes.dot_not_mem
    | inr htail => exact ih t htail

lemma isClosed_of_ofSource {source : String} {s : TokenStream} (h : ofSource source = .ok s) :
    s.IsClosed := by
  obtain ⟨d, hd⟩ := ofSource_eq_ok.1 h
  exact ⟨congrArg Token.kind hd.eof_eq, hd.yields.kind_ne_eof⟩

end TokenStream

end BrighterCheck
