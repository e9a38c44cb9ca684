import BrighterCheck.Proofs.Lexer.Munch

/-!
# Tokens stay on their line

Only the token for the end of a line has a carriage return or a line feed in its text. Every other
pattern is made of classes without these characters, strings included.
-/

namespace BrighterCheck

/-- A text in which no line ends. -/
def IsOneLine (text : List Char) : Prop :=
  ∀ c ∈ text, Cursor.onLine c = true

instance (text : List Char) : Decidable (IsOneLine text) :=
  decidable_of_iff (text.all Cursor.onLine = true) List.all_eq_true

lemma IsOneLine.append {text text' : List Char} (h : IsOneLine text) (h' : IsOneLine text') :
    IsOneLine (text ++ text') :=
  List.forall_mem_append.2 ⟨h, h'⟩

lemma IsOneLine.newline_notMem {text : List Char} (h : IsOneLine text) : '\n' ∉ text :=
  fun hmem => Cursor.onLine_eq_true_iff.1 (h _ hmem) (.inr rfl)

/-- Only the pattern of a line end has a class with a character that ends a line. -/
lemma TokenKind.all_unbroken {x : Char} (hx : x = '\r' ∨ x = '\n') :
    ∀ rule ∈ patterns, rule.1 ≠ .newline → rule.2.all (fun p => !p x) = true := by
  have hreturn : patterns.all
      (fun rule => decide (rule.1 = .newline) || rule.2.all fun p => !p '\r') = true := rfl
  have hfeed : patterns.all
      (fun rule => decide (rule.1 = .newline) || rule.2.all fun p => !p '\n') = true := rfl
  intro rule hrule hkind
  rcases hx with rfl | rfl
  · simpa [hkind] using List.all_eq_true.1 hreturn rule hrule
  · simpa [hkind] using List.all_eq_true.1 hfeed rule hrule

namespace Cursor

/-- What is no line end has a text on one line. -/
lemma IsToken.isOneLine {text piece : List Char} {kind : TokenKind} (h : IsToken text kind piece)
    (hk : kind ≠ .newline) : IsOneLine piece := by
  obtain ⟨before, pattern, after, hrules, hmatch, -⟩ := h.first
  have hmem : (kind, pattern) ∈ TokenKind.patterns := by simp [hrules]
  intro c hc
  refine onLine_eq_true_iff.2 fun hbreak => ?_
  exact hmatch.not_mem (TokenKind.all_unbroken hbreak _ hmem hk) hc

lemma Takes.isOneLine {c d : Cursor} {t : Token} (h : Takes c t d) (hk : t.kind ≠ .newline) :
    IsOneLine t.text.toList := by
  cases h with
  | @mk x xs kind n hr hs =>
    have htoken := startsWith_scan x xs
    rw [hs] at htoken
    rw [String.toList_ofList]
    exact htoken.isOneLine hk

end Cursor

/-- The tokens of a source, but for its line ends, have texts on one line. -/
theorem TokenStream.isOneLine_of_ofSource {source : String} {s : TokenStream}
    (h : ofSource source = .ok s) :
    ∀ t ∈ s.tokens, t.kind ≠ .newline → IsOneLine t.text.toList := by
  obtain ⟨d, hyields, -, -⟩ := ofSource_eq_ok.1 h
  generalize s.tokens = tokens, Cursor.start source = c at hyields
  induction hyields with
  | nil => exact fun _ ht => absurd ht List.not_mem_nil
  | cons htakes _ ih => exact List.forall_mem_cons.2 ⟨htakes.isOneLine, ih⟩

end BrighterCheck
