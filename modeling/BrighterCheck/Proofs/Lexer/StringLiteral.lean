import BrighterCheck.Proofs.Lexer.Longest
import BrighterCheck.Proofs.Lexer.Stream

/-!
# String literals

A string is closed by the first quote on its line that is not one of an escaped pair `""`. The
length of a string is found exactly where such a quote stands; otherwise the rest of the line is
refused.
-/

namespace BrighterCheck

namespace Regex

lemma matches_one_iff {p : Char → Bool} {cs : List Char} :
    Matches (.one p) cs ↔ ∃ c, cs = [c] ∧ p c = true := by
  constructor
  · intro h
    cases h with
    | one hp => exact ⟨_, rfl, hp⟩
  · intro h
    obtain ⟨c, rfl, hp⟩ := h
    exact .one hp

lemma matches_char_iff {c : Char} {cs : List Char} : (char c).Matches cs ↔ cs = [c] := by
  rw [char, matches_one_iff]
  constructor
  · intro h
    obtain ⟨d, rfl, hd⟩ := h
    rw [eq_of_beq hd]
  · intro h
    exact ⟨c, h, beq_self_eq_true c⟩

lemma matches_seq_char_iff {c : Char} {r : Regex} {cs : List Char} :
    Matches (.seq (char c) r) cs ↔ ∃ ds, cs = c :: ds ∧ r.Matches ds := by
  rw [matches_seq_iff]
  constructor
  · intro h
    obtain ⟨start, ds, rfl, hstart, hds⟩ := h
    cases matches_char_iff.1 hstart
    exact ⟨ds, rfl, hds⟩
  · intro h
    obtain ⟨ds, rfl, hds⟩ := h
    exact ⟨[c], ds, rfl, matches_char_iff.2 rfl, hds⟩

end Regex

namespace Cursor

open Regex

/-- A character that ends no line. -/
def onLine (c : Char) : Bool :=
  c != '\r' && c != '\n'

lemma onLine_eq_true_iff {c : Char} : onLine c = true ↔ ¬ (c = '\r' ∨ c = '\n') := by
  simp [onLine]

/-- The text between the quotes of a string: quotes are written twice, and no line ends. -/
inductive StringBody : List Char → Prop where
  | nil : StringBody []
  | plain {c cs} : c ≠ '"' → onLine c = true → StringBody cs → StringBody (c :: cs)
  | quote {cs} : StringBody cs → StringBody ('"' :: '"' :: cs)

/-- Behind an opening quote, a text goes on with a whole string and its closing quote. -/
structure Closes (cs body behind : List Char) : Prop where
  eq : cs = body ++ '"' :: behind
  stringBody : StringBody body
  head?_ne : behind.head? ≠ some '"'

variable {cs body body' behind behind' : List Char} {n : Nat}

/-- Where a string is closed, its length is found. -/
lemma Closes.stringTail_eq (h : Closes cs body behind) :
    stringTail cs = (body.length + 1, true) := by
  obtain ⟨rfl, hbody, hhead⟩ := h
  induction hbody with
  | nil => exact stringTail_of_head?_ne hhead
  | plain hquote hline _ ih =>
    rw [List.cons_append, stringTail_of_ne hquote, if_neg (onLine_eq_true_iff.1 hline), ih]
    rfl
  | quote _ ih =>
    rw [List.cons_append, List.cons_append, stringTail, ih]
    rfl

/-- The length that is found is that of a string with its closing quote. -/
lemma closes_of_stringTail (h : stringTail cs = (n, true)) :
    ∃ body behind, Closes cs body behind ∧ n = body.length + 1 := by
  induction cs using stringTail.induct generalizing n with
  | case1 cs m closed hm ih =>
    rw [stringTail, hm] at h
    cases h
    obtain ⟨body, behind, ⟨rfl, hbody, hhead⟩, rfl⟩ := ih hm
    exact ⟨'"' :: '"' :: body, behind, ⟨rfl, .quote hbody, hhead⟩, rfl⟩
  | case2 cs hcs =>
    have hhead : cs.head? ≠ some '"' := by
      intro hhead
      obtain ⟨cs', rfl⟩ := List.head?_eq_some_iff.1 hhead
      exact hcs cs' rfl
    rw [stringTail_of_head?_ne hhead] at h
    cases h
    exact ⟨[], cs, ⟨rfl, .nil, hhead⟩, rfl⟩
  | case3 => cases h
  | case4 c cs hquotes hquote hend =>
    rw [stringTail_of_ne hquote, if_pos hend] at h
    cases h
  | case5 c cs hquotes hquote hend m closed hm ih =>
    rw [stringTail_of_ne hquote, if_neg hend, hm] at h
    cases h
    obtain ⟨body, behind, ⟨rfl, hbody, hhead⟩, rfl⟩ := ih hm
    exact ⟨c :: body, behind, ⟨rfl, .plain hquote (onLine_eq_true_iff.2 hend) hbody, hhead⟩, rfl⟩

/-- Without a closing quote, the rest of the line is taken. -/
lemma length_of_stringTail (h : stringTail cs = (n, false)) : n = (cs.takeWhile onLine).length := by
  induction cs using stringTail.induct generalizing n with
  | case1 cs m closed hm ih =>
    rw [stringTail, hm] at h
    cases h
    rw [ih hm]
    rfl
  | case2 cs hcs =>
    rw [stringTail] at h
    · cases h
    · exact hcs
  | case3 =>
    cases h
    rfl
  | case4 c cs hquotes hquote hend =>
    rw [stringTail_of_ne hquote, if_pos hend] at h
    cases h
    rw [List.takeWhile_cons, if_neg (fun hline => onLine_eq_true_iff.1 hline hend)]
    rfl
  | case5 c cs hquotes hquote hend m closed hm ih =>
    rw [stringTail_of_ne hquote, if_neg hend, hm] at h
    cases h
    rw [List.takeWhile_cons, if_pos (onLine_eq_true_iff.2 hend), ih hm]
    rfl

/-- A text has one closing quote: another string at the same place is no longer. -/
lemma StringBody.length_le (hbody : StringBody body) (hhead : behind.head? ≠ some '"')
    (hbody' : StringBody body') (h : body ++ '"' :: behind = body' ++ '"' :: behind') :
    body'.length ≤ body.length := by
  induction hbody generalizing body' with
  | nil =>
    cases hbody' with
    | nil => exact Nat.le_refl 0
    | plain hquote _ _ => exact absurd (List.cons.inj h).1.symm hquote
    | quote _ =>
      rw [(List.cons.inj h).2] at hhead
      exact absurd rfl hhead
  | plain hquote _ _ ih =>
    cases hbody' with
    | nil => exact absurd (List.cons.inj h).1 hquote
    | plain _ _ hbody' => exact Nat.succ_le_succ (ih hbody' (List.cons.inj h).2)
    | quote _ => exact absurd (List.cons.inj h).1 hquote
  | quote _ ih =>
    cases hbody' with
    | nil => exact Nat.zero_le _
    | plain hquote _ _ => exact absurd (List.cons.inj h).1.symm hquote
    | quote hbody' =>
      have htail := (List.cons.inj (List.cons.inj h).2).2
      exact Nat.add_le_add_right (ih hbody' htail) 2

/-- One step of the text between the quotes. -/
lemma StringBody.of_matches_star {item : Regex}
    (hitem : ∀ start, item.Matches start →
      start = ['"', '"'] ∨ ∃ c, start = [c] ∧ c ≠ '"' ∧ onLine c = true)
    (h : (Regex.star item).Matches body) : StringBody body := by
  generalize e : Regex.star item = r at h
  induction h with
  | done => exact .nil
  | more hstart _ _ ih =>
    cases e
    cases hitem _ hstart with
    | inl hquotes =>
      rw [hquotes]
      exact .quote (ih rfl)
    | inr hplain =>
      obtain ⟨c, rfl, hquote, hline⟩ := hplain
      exact .plain hquote hline (ih rfl)
  | _ => cases e

/-- The pattern of a string describes the strings. -/
theorem matches_string_iff :
    Pattern.string.Matches cs ↔ ∃ body, cs = '"' :: (body ++ ['"']) ∧ StringBody body := by
  have hplain (c : Char) : (c != '"' && c != '\r' && c != '\n') = true ↔
      c ≠ '"' ∧ onLine c = true := by
    simp [onLine, and_assoc]
  simp only [Pattern.string, Regex.sequence, matches_seq_char_iff]
  constructor
  · intro h
    obtain ⟨rest, rfl, hrest⟩ := h
    obtain ⟨body, last, rfl, hbody, hlast⟩ := matches_seq_iff.1 hrest
    cases matches_char_iff.1 hlast
    refine ⟨body, rfl, .of_matches_star ?_ hbody⟩
    intro start hstart
    cases matches_alt_iff.1 hstart with
    | inl hone =>
      obtain ⟨c, rfl, hc⟩ := matches_one_iff.1 hone
      exact .inr ⟨c, rfl, (hplain c).1 hc⟩
    | inr htwo =>
      obtain ⟨second, rfl, hsecond⟩ := matches_seq_char_iff.1 htwo
      cases matches_char_iff.1 hsecond
      exact .inl rfl
  · intro h
    obtain ⟨body, rfl, hbody⟩ := h
    refine ⟨body ++ ['"'], rfl, .seq ?_ (matches_char_iff.2 rfl)⟩
    induction hbody with
    | nil => exact .done
    | @plain c cs hquote hline _ ih =>
      exact .more (.left (.one ((hplain c).2 ⟨hquote, hline⟩))) ih
    | quote _ ih =>
      have hquotes : (text ['"', '"']).Matches ['"', '"'] :=
        matches_seq_char_iff.2 ⟨_, rfl, matches_char_iff.2 rfl⟩
      exact .more (.right hquotes) ih

end Cursor

end BrighterCheck
