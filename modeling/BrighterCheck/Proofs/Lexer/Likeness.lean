import BrighterCheck.Proofs.Lexer.Stream
import BrighterCheck.Proofs.Tree.Relabel

/-!
# Sources that are read alike

Two sources are read alike if from their starts on, at every token, what is read next looks the
same after relabelling. This needs a relation between the cursors in both sources that every token
keeps (`Cursor.Likeness`). Then the streams of tokens look the same.
-/

namespace BrighterCheck

/-- A relation between cursors from which the same is read, apart from labels. -/
structure Cursor.Likeness (r : Relabel) (R : Cursor → Cursor → Prop) : Prop where
  /-- What is read looks the same. -/
  next_eq : ∀ {c c'}, R c c' → c.next.1.map r.token = c'.next.1.map r.token
  /-- Behind a token, reading goes on at cursors that are related again. -/
  next : ∀ {c c' t}, R c c' → c.next.1 = .ok t → t.kind ≠ .eof → R c.next.2 c'.next.2

namespace TokenStream

open Cursor

variable {r : Relabel} {R : Cursor → Cursor → Prop} {c c' : Cursor} {source source' : String}

/-- Relabelled lexemes make the relabelled stream. -/
lemma ofLexemes_relabel (hr : r.token (.endOfSource .origin) = .endOfSource .origin)
    (lexemes : List (Except LexicalError Token)) :
    ofLexemes (lexemes.map (Except.map r.token)) = (ofLexemes lexemes).map r.stream := by
  induction lexemes with
  | nil => exact congrArg (fun eof => Except.ok (⟨[], eof⟩ : TokenStream)) hr.symm
  | cons lexeme lexemes ih =>
    cases lexeme with
    | error e => rfl
    | ok t =>
      rw [List.map_cons, Except.map, ofLexemes, ofLexemes, Relabel.token_kind, ih]
      split
      case isTrue => rfl
      case isFalse => cases ofLexemes lexemes <;> rfl

lemma next_rest_length_lt {t : Token} (h : c.next.1 = .ok t) (ht : t.kind ≠ .eof) :
    c.next.2.rest.length < c.rest.length := by
  have hnext : c.next = (.ok t, c.next.2) := Prod.ext h rfl
  cases next_eq_ok.1 hnext with
  | inl hend =>
    obtain ⟨-, rfl, -⟩ := hend
    exact absurd rfl ht
  | inr htakes => exact htakes.rest_length_lt

/-- From related cursors the same tokens are read, or the same error is found. -/
lemma ofLexemes_eq_of_likeness (h : Likeness r R) {n n' : Nat} (hn : c.rest.length < n)
    (hn' : c'.rest.length < n') (hc : R c c') :
    ofLexemes ((lexemes n c).map (Except.map r.token)) =
      ofLexemes ((lexemes n' c').map (Except.map r.token)) := by
  induction n generalizing n' c c' with
  | zero => exact absurd hn (Nat.not_lt_zero _)
  | succ n ih =>
    obtain ⟨n', rfl⟩ := Nat.exists_eq_succ_of_ne_zero (Nat.ne_zero_of_lt hn')
    have hnext := h.next_eq hc
    rw [lexemes, lexemes, List.map_cons, List.map_cons]
    cases hread : c.next.1 with
    | error e =>
      rw [hread] at hnext
      rw [← hnext]
      rfl
    | ok t =>
      cases hread' : c'.next.1 with
      | error e' =>
        rw [hread, hread'] at hnext
        cases hnext
      | ok t' =>
        rw [hread, hread'] at hnext
        have htoken : r.token t = r.token t' := Except.ok.inj hnext
        have hkind : t.kind = t'.kind := by
          rw [← r.token_kind, htoken, r.token_kind]
        rw [Except.map, Except.map, ← htoken, ofLexemes, ofLexemes, r.token_kind]
        by_cases heof : t.kind = .eof
        · rw [if_pos heof, if_pos heof]
        · have hlt := next_rest_length_lt hread heof
          have hlt' := next_rest_length_lt hread' (hkind ▸ heof)
          have hrest := ih (show c.next.2.rest.length < n by omega)
            (show c'.next.2.rest.length < n' by omega) (h.next hc hread heof)
          rw [if_neg heof, if_neg heof, hrest]

/-- Sources with related starts have tokens that look the same, or the same lexical error. -/
theorem ofSource_eq_of_likeness (hr : r.token (.endOfSource .origin) = .endOfSource .origin)
    (h : Likeness r R) (hstart : R (.start source) (.start source')) :
    (ofSource source).map r.stream = (ofSource source').map r.stream := by
  rw [ofSource, ofSource, ← ofLexemes_relabel hr, ← ofLexemes_relabel hr]
  exact ofLexemes_eq_of_likeness h (Nat.lt_succ_self _) (Nat.lt_succ_self _) hstart

end TokenStream

end BrighterCheck
