import BrighterCheck.Proofs.Lexer.Longest
import BrighterCheck.Proofs.Text.LetterCase
import Mathlib.Data.List.Nodup

/-!
# Names and words

The pattern of a name also matches the keywords and the word `rem`. These come first: a text in the
shape of a name is the keyword with its spelling, else a comment if it is `rem`, else an identifier.
-/

namespace BrighterCheck

open Ascii Regex

variable {cs : List Char}

namespace Ascii

lemma lower_eq_iff {s t : String} :
    lower s = lower t ↔ s.toList.map Char.toLower = t.toList.map Char.toLower := by
  rw [← String.toList_inj, toList_lower, toList_lower]

lemma sameWord_ofList {t : String} :
    sameWord (String.ofList cs) t = true ↔ cs.map Char.toLower = t.toList.map Char.toLower := by
  rw [sameWord_iff, lower_eq_iff, String.toList_ofList]

/-- A question about ASCII characters is answered by asking it of each of them. -/
lemma of_range {p : Char → Bool} (h : (List.range 128).all (fun n => p (Char.ofNat n)) = true)
    {c : Char} (hc : c.toNat < 128) : p c = true := by
  have hall := List.all_eq_true.1 h c.toNat (List.mem_range.2 hc)
  rwa [Char.ofNat_toNat] at hall

end Ascii

namespace Regex

lemma matches_letter_iff {c : Char} :
    (letter c).Matches cs ↔ ∃ d, cs = [d] ∧ d.toLower = c.toLower := by
  constructor
  · intro h
    cases h with
    | one hd => exact ⟨_, rfl, eq_of_beq hd⟩
  · intro h
    obtain ⟨d, rfl, hd⟩ := h
    exact .one (beq_iff_eq.2 hd)

/-- A word matches its spellings in any letter case. -/
lemma matches_word_iff {ws : List Char} :
    (word ws).Matches cs ↔ cs.map Char.toLower = ws.map Char.toLower := by
  induction ws generalizing cs with
  | nil =>
    rw [List.map_nil, List.map_eq_nil_iff]
    exact matches_empty_iff
  | cons w ws ih =>
    have hcons : (word (w :: ws)).Matches cs ↔ Matches (.seq (letter w) (word ws)) cs := by
      cases ws with
      | nil =>
        rw [matches_seq_iff]
        constructor
        · intro h
          exact ⟨cs, [], (List.append_nil cs).symm, h, .empty⟩
        · intro h
          obtain ⟨start, rest, rfl, hstart, hrest⟩ := h
          cases matches_empty_iff.1 hrest
          rw [List.append_nil]
          exact hstart
      | cons => rfl
    rw [hcons, matches_seq_iff]
    constructor
    · intro h
      obtain ⟨start, rest, rfl, hstart, hrest⟩ := h
      obtain ⟨d, rfl, hd⟩ := matches_letter_iff.1 hstart
      rw [List.singleton_append, List.map_cons, List.map_cons, hd, ih.1 hrest]
    · intro h
      obtain ⟨d, rest, rfl, hd, hrest⟩ := List.map_eq_cons_iff.1 h
      exact ⟨[d], rest, rfl, matches_letter_iff.2 ⟨d, rfl, hd⟩, ih.2 hrest⟩

end Regex

namespace Keyword

lemma mem_all (w : Keyword) : w ∈ all := by
  cases w <;> decide

/-- The keywords and the word `rem` differ in their spellings. -/
lemma nodup_words : ("rem".toList.map Char.toLower ::
    all.map fun w => w.spelling.toList.map Char.toLower).Nodup := by
  decide +kernel

lemma lower_spelling_inj {w v : Keyword} (h : lower w.spelling = lower v.spelling) : w = v :=
  List.inj_on_of_nodup_map (List.nodup_cons.1 nodup_words).2 w.mem_all v.mem_all
    (lower_eq_iff.1 h)

lemma lower_spelling_ne_rem (w : Keyword) : lower w.spelling ≠ lower "rem" := by
  intro h
  apply (List.nodup_cons.1 nodup_words).1
  rw [← lower_eq_iff.1 h]
  exact List.mem_map_of_mem w.mem_all

end Keyword

namespace TokenKind

/-- The kind of a text in the shape of a name. -/
def ofName (text : String) : TokenKind :=
  ((Keyword.all.find? fun w => sameWord text w.spelling).map .keyword).getD
    (if sameWord text "rem" then .comment else .identifier)

/-- What the kind of a name says about its text. -/
structure Names (kind : TokenKind) (text : String) : Prop where
  keyword_iff : ∀ w, kind = .keyword w ↔ sameWord text w.spelling = true
  comment_iff : kind = .comment ↔ sameWord text "rem" = true
  identifier_iff : kind = .identifier ↔
    (∀ w : Keyword, sameWord text w.spelling = false) ∧ sameWord text "rem" = false

lemma names_ofName (text : String) : (ofName text).Names text := by
  unfold ofName
  cases hfind : Keyword.all.find? fun w => sameWord text w.spelling with
  | some w =>
    have hw : sameWord text w.spelling = true :=
      List.find?_some (p := fun w : Keyword => sameWord text w.spelling) hfind
    have hlower := sameWord_iff.1 hw
    refine ⟨fun v => ?_, ?_, ?_⟩
    · constructor
      · intro h
        cases h
        exact hw
      · intro h
        rw [Keyword.lower_spelling_inj (hlower.symm.trans (sameWord_iff.1 h))]
        rfl
    · -- The word `rem` is no keyword.
      constructor
      · intro h
        cases h
      · intro h
        exact absurd (hlower.symm.trans (sameWord_iff.1 h)) w.lower_spelling_ne_rem
    · constructor
      · intro h
        cases h
      · intro h
        rw [h.1 w] at hw
        cases hw
  | none =>
    have hnone (w : Keyword) : sameWord text w.spelling = false := by
      simpa using List.find?_eq_none.1 hfind w w.mem_all
    simp only [Option.map_none, Option.getD_none]
    cases hrem : sameWord text "rem" with
    | true =>
      refine ⟨fun w => ?_, by simp [hrem], by simp [hrem]⟩
      simp [hnone w]
    | false =>
      refine ⟨fun w => ?_, by simp [hrem], by simp [hrem, hnone]⟩
      simp [hnone w]

/-- A letter or an underscore. -/
def isNameStart (c : Char) : Bool :=
  c.isAlpha || c == '_'

lemma toNat_lt_of_isNameStart {c : Char} (h : isNameStart c = true) : c.toNat < 128 := by
  have hbounds : ((decide ('A'.val ≤ c.val ∧ c.val ≤ 'Z'.val) ||
      (decide ('a'.val ≤ c.val) && decide (c.val ≤ 'z'.val))) || c == '_') = true := h
  simp only [Bool.or_eq_true, Bool.and_eq_true, decide_eq_true_eq, beq_iff_eq,
    UInt32.le_iff_toNat_le] at hbounds
  cases hbounds with
  | inl hletter =>
    have hcode : 65 ≤ c.toNat ∧ c.toNat ≤ 90 ∨ 97 ≤ c.toNat ∧ c.toNat ≤ 122 := hletter
    omega
  | inr hscore =>
    rw [hscore]
    decide

/-- A name starts with a letter or an underscore. -/
lemma exists_cons_of_identifier (h : Pattern.identifier.Matches cs) :
    ∃ x xs, cs = x :: xs ∧ isNameStart x = true := by
  obtain ⟨start, rest, rfl, hstart, -⟩ := matches_seq_iff.1 h
  cases hstart with
  | one hx => exact ⟨_, rest, rfl, hx⟩

/-- No rule can start like a name. -/
def wordless (rules : List (TokenKind × Regex)) : Bool :=
  (List.range 128).all fun n =>
    !isNameStart (Char.ofNat n) || rules.all fun rule => (rule.2.deriv (Char.ofNat n)).isNothing

lemma firstMatch_of_wordless (rules : List (TokenKind × Regex)) (hrules : wordless rules = true)
    (h : Pattern.identifier.Matches cs) : firstMatch rules cs = none := by
  obtain ⟨x, xs, rfl, hx⟩ := exists_cons_of_identifier h
  have hall := of_range (p := fun c => !isNameStart c ||
    rules.all fun rule => (rule.2.deriv c).isNothing) hrules (toNat_lt_of_isNameStart hx)
  rw [hx] at hall
  apply firstMatch_eq_none_iff.2
  intro rule hrule hmatch
  have hnothing := List.all_eq_true.1 hall rule hrule
  rw [hmatch.isNothing_deriv] at hnothing
  cases hnothing

lemma firstMatch_keywords :
    firstMatch (Keyword.all.map fun w => (TokenKind.keyword w, .word w.spelling.toList)) cs =
      (Keyword.all.find? fun w => sameWord (String.ofList cs) w.spelling).map .keyword := by
  have hword (w : Keyword) :
      (word w.spelling.toList).accepts cs = sameWord (String.ofList cs) w.spelling := by
    rw [Bool.eq_iff_iff, accepts_iff, sameWord_ofList, matches_word_iff]
  rw [firstMatch, List.find?_map, Option.map_map]
  simp only [Function.comp_def, hword]

/-- A name has no blank in it, so of the comments it can only be the word `rem`. -/
lemma accepts_rem (h : Pattern.identifier.Matches cs) :
    accepts (.seq (word "rem".toList) (opt (.seq (.one [' ', '\t'].contains)
      (.star Pattern.sameLine)))) cs = sameWord (String.ofList cs) "rem" := by
  have hspace : ' ' ∉ cs := h.not_mem rfl
  have htab : '\t' ∉ cs := h.not_mem rfl
  rw [Bool.eq_iff_iff, accepts_iff, sameWord_ofList, matches_seq_iff]
  constructor
  · intro hrem
    obtain ⟨start, rest, rfl, hstart, hrest⟩ := hrem
    have hnil : rest = [] := by
      cases matches_alt_iff.1 hrest with
      | inl hblank =>
        obtain ⟨blank, text, rfl, hone, -⟩ := matches_seq_iff.1 hblank
        cases hone with
        | one hb =>
          simp only [List.mem_append, List.mem_cons, not_or] at hspace htab
          simp at hb
          cases hb with
          | inl hb => exact absurd hb.symm hspace.2.1.1
          | inr hb => exact absurd hb.symm htab.2.1.1
      | inr hempty => exact matches_empty_iff.1 hempty
    rw [hnil, List.append_nil]
    exact matches_word_iff.1 hstart
  · intro hrem
    exact ⟨cs, [], (List.append_nil cs).symm, matches_word_iff.2 hrem, .right .empty⟩

/-- A text in the shape of a name is a keyword, a comment or an identifier by its spelling. -/
theorem firstMatch_identifier (h : Pattern.identifier.Matches cs) :
    firstMatch patterns cs = some (ofName (String.ofList cs)) := by
  have hliterals := firstMatch_of_wordless
    (Pattern.literals.map fun rule => (.literal rule.1, rule.2)) rfl h
  have hapostrophe := firstMatch_of_wordless
    [(.comment, .seq (char '\'') (.star Pattern.sameLine))] rfl h
  have hdirectives := firstMatch_of_wordless
    (Pattern.directives.map fun rule => (.directive rule.1, rule.2)) rfl h
  have hmarks := firstMatch_of_wordless
    (Punctuator.all.map fun p => (.punctuator p, .text p.spelling.toList)) rfl h
  have hnewline := firstMatch_of_wordless
    [(.newline, Pattern.newline)] rfl h
  have hpatterns : patterns =
      Keyword.all.map (fun w => (TokenKind.keyword w, Regex.word w.spelling.toList)) ++
      (Pattern.literals.map (fun rule => (TokenKind.literal rule.1, rule.2)) ++
      ([(TokenKind.comment, Regex.seq (char '\'') (.star Pattern.sameLine))] ++
      ([(TokenKind.comment, Regex.seq (word "rem".toList) (opt (.seq (.one [' ', '\t'].contains)
        (.star Pattern.sameLine))))] ++
      (Pattern.directives.map (fun rule => (TokenKind.directive rule.1, rule.2)) ++
      (Punctuator.all.map (fun p => (TokenKind.punctuator p, Regex.text p.spelling.toList)) ++
      ([(TokenKind.newline, Pattern.newline)] ++
      [(TokenKind.identifier, Pattern.identifier)])))))) := by
    simp only [patterns, List.append_assoc]
    rfl
  rw [hpatterns, firstMatch_append, firstMatch_keywords, firstMatch_append, hliterals,
    firstMatch_append, hapostrophe, firstMatch_append, firstMatch_append, hdirectives,
    firstMatch_append, hmarks, firstMatch_append, hnewline, firstMatch_singleton,
    firstMatch_singleton, accepts_rem h, if_pos (accepts_iff.2 h), ofName]
  cases Keyword.all.find? fun w => sameWord (String.ofList cs) w.spelling with
  | some w => rfl
  | none =>
    cases sameWord (String.ofList cs) "rem" with
    | true => rfl
    | false => rfl

end TokenKind

end BrighterCheck
