import BrighterCheck.Proofs.Lexer.Likeness
import BrighterCheck.Proofs.Text.LetterCase

/-!
# Tokens in any letter case

No pattern of a token tells the two forms of a letter apart, and every letter starts some token. So
a lowered source has the lowered tokens at the same places, or the same lexical error.
-/

namespace BrighterCheck

open Ascii

namespace Regex

variable {α : Type}

/-- A class with both forms of each letter or neither. -/
def ignoresCase (p : Char → Bool) : Bool :=
  capitals.all fun c => p c.toLower == p c

lemma ignoresCase_letter (c : Char) : ignoresCase (fun d => d.toLower == c.toLower) = true := by
  apply List.all_eq_true.2
  intro d _
  simp only [toLower_toLower, beq_self_eq_true]

/-- Both forms of a letter leave the same behind. -/
lemma deriv_toLower {r : Regex} (h : r.all ignoresCase = true) (c : Char) :
    r.deriv c.toLower = r.deriv c := by
  induction r with
  | nothing => rfl
  | empty => rfl
  | one p =>
    have hp : IgnoresCase p := .of_forall_capitals fun d hd =>
      eq_of_beq (List.all_eq_true.1 h d hd)
    simp only [deriv, hp c]
  | seq r s ihr ihs =>
    obtain ⟨hr, hs⟩ := Bool.and_eq_true_iff.1 h
    simp only [deriv, ihr hr, ihs hs]
  | alt r s ihr ihs =>
    obtain ⟨hr, hs⟩ := Bool.and_eq_true_iff.1 h
    simp only [deriv, ihr hr, ihs hs]
  | star r ih => simp only [deriv, ih h]

variable {rules : List (α × Regex)}

lemma advance_toLower (h : ∀ rule ∈ rules, rule.2.all ignoresCase = true) (c : Char) :
    advance c.toLower rules = advance c rules := by
  have hmap : (rules.map fun rule => (rule.1, rule.2.deriv c.toLower)) =
      rules.map fun rule => (rule.1, rule.2.deriv c) := by
    apply List.map_congr_left
    intro rule hrule
    rw [deriv_toLower (h rule hrule)]
  rw [advance, hmap, advance]

/-- Rules that ignore the letter case find the same in a lowered text. -/
lemma longest_map_toLower (h : ∀ rule ∈ rules, rule.2.all ignoresCase = true) (cs : List Char) :
    longest rules (cs.map Char.toLower) = longest rules cs := by
  induction cs generalizing rules with
  | nil => rfl
  | cons c cs ih =>
    have hlive := all_advance h c
    have hadvance := advance_toLower h c
    rw [List.map_cons]
    by_cases hnil : advance c rules = []
    · rw [longest_of_advance_eq_nil hnil, longest_of_advance_eq_nil (hadvance.trans hnil)]
    · rw [longest_of_advance_eq rfl hnil, longest_of_advance_eq hadvance hnil, ih hlive]

lemma longest_isSome {rule : α × Regex} (hmem : rule ∈ rules) (hnull : rule.2.nullable = true)
    (cs : List Char) : (longest rules cs).isSome = true := by
  have haccept : ((accepting rules).map (·, 0)).isSome = true := by
    have hfind : (rules.find? fun rule => rule.2.nullable).isSome = true :=
      List.find?_isSome.2 ⟨rule, hmem, hnull⟩
    simpa [accepting] using hfind
  cases cs with
  | nil => exact haccept
  | cons c cs =>
    by_cases hnil : advance c rules = []
    · rw [longest_of_advance_eq_nil hnil]
      exact haccept
    · rw [longest_of_advance_eq rfl hnil, Option.isSome_or, haccept, Bool.or_true]

/-- A rule that one character satisfies makes sure that this character is taken. -/
lemma longest_of_deriv {rule : α × Regex} {c : Char} (hmem : rule ∈ rules)
    (hnull : (rule.2.deriv c).nullable = true) (cs : List Char) :
    ∃ a n, longest rules (c :: cs) = some (a, n + 1) := by
  have hlive : (rule.1, rule.2.deriv c) ∈ advance c rules := by
    refine List.mem_filter.2 ⟨List.mem_map_of_mem hmem, ?_⟩
    cases hd : rule.2.deriv c with
    | nothing =>
      rw [hd] at hnull
      cases hnull
    | _ => rfl
  obtain ⟨⟨a, n⟩, ha⟩ := Option.isSome_iff_exists.1 (longest_isSome hlive hnull cs)
  rw [longest_of_advance_eq rfl (List.ne_nil_of_mem hlive), ha]
  exact ⟨a, n, rfl⟩

end Regex

namespace TokenKind

open Regex

lemma ignoresCase_patterns : ∀ rule ∈ patterns, rule.2.all ignoresCase = true := by
  have hliterals : ∀ rule ∈ Pattern.literals, rule.2.all ignoresCase = true := by decide +kernel
  have hcomments : ∀ r ∈ Pattern.comments, r.all ignoresCase = true := by decide +kernel
  have hdirectives : ∀ rule ∈ Pattern.directives, rule.2.all ignoresCase = true := by
    decide +kernel
  have hmarks : ∀ p ∈ Punctuator.all, (text p.spelling.toList).all ignoresCase = true := by
    decide +kernel
  have hrest : Pattern.newline.all ignoresCase = true ∧
      Pattern.identifier.all ignoresCase = true := by
    decide +kernel
  intro rule hrule
  simp only [patterns, List.mem_append, List.mem_map, List.mem_cons, List.not_mem_nil] at hrule
  rcases hrule with ((((⟨w, -, rfl⟩ | ⟨l, hl, rfl⟩) | ⟨r, hr, rfl⟩) | ⟨d, hd, rfl⟩) |
    ⟨p, hp, rfl⟩) | rfl | rfl | hfalse
  · exact all_word ignoresCase_letter _
  · exact hliterals l hl
  · exact hcomments r hr
  · exact hdirectives d hd
  · exact hmarks p hp
  · exact hrest.1
  · exact hrest.2
  · exact hfalse.elim

/-- Every letter can be the whole of a name. -/
lemma exists_nullable_deriv {c : Char} (hc : c ∈ capitals) :
    ∃ rule ∈ patterns, (rule.2.deriv c).nullable = true := by
  have hall : capitals.all (fun c => (Pattern.identifier.deriv c).nullable) = true := by decide
  exact ⟨(.identifier, Pattern.identifier), by simp [patterns], List.all_eq_true.1 hall c hc⟩

end TokenKind

/-- Texts in small letters, at the same places and with the same numbers. -/
def Relabel.lower : Relabel where
  text _ := Ascii.lower
  range := id
  shift := 0
  text_name _ _ _ := rfl
  text_dotted _ _ := by
    rw [lower_append, lower_append]
    rfl
  text_forEach _ _ := by
    rw [lower_append, lower_append]
    rfl
  range_merge _ _ := rfl

lemma Relabel.inPlace_lower : lower.InPlace :=
  ⟨rfl, rfl⟩

namespace Cursor

/-- The same place of the lowered source. -/
def lower (c : Cursor) : Cursor :=
  ⟨c.rest.map Char.toLower, c.place⟩

lemma start_lower (source : String) : start (Ascii.lower source) = (start source).lower := by
  rw [start, toList_lower]
  rfl

lemma forward_lower (c : Cursor) (n : Nat) : c.lower.forward n = (c.forward n).lower := by
  simp only [forward, lower, ← List.map_take, ← List.map_drop, Position.after_map_toLower]

lemma skipBlanks_lower (c : Cursor) : c.lower.skipBlanks = c.skipBlanks.lower := by
  have hblank : IgnoresCase isBlank := .of_capitals (by decide)
  have hrest : c.lower.rest = c.rest.map Char.toLower := rfl
  rw [skipBlanks, hrest, takeWhile_map_toLower hblank, List.length_map, forward_lower, skipBlanks]

lemma toLower_eq_quote : ∀ c : Char, c.toLower = '"' ↔ c = '"' :=
  toLower_eq_iff (.of_capitals (by decide))

lemma toLower_eq_break (c : Char) :
    c.toLower = '\r' ∨ c.toLower = '\n' ↔ c = '\r' ∨ c = '\n' := by
  rw [toLower_eq_iff (.of_capitals (by decide)), toLower_eq_iff (.of_capitals (by decide))]

lemma stringTail_map_toLower (cs : List Char) :
    stringTail (cs.map Char.toLower) = stringTail cs := by
  have hne {c : Char} (hc : c ≠ '"') : c.toLower ≠ '"' := fun h => hc ((toLower_eq_quote c).1 h)
  induction cs using stringTail.induct with
  | case1 cs n closed h ih =>
    have hquote : '"'.toLower = '"' := rfl
    simp only [List.map_cons, hquote, stringTail, ih]
  | case2 cs hcs =>
    cases cs with
    | nil => rfl
    | cons d ds =>
      have hd : d ≠ '"' := by
        rintro rfl
        exact hcs ds rfl
      have htail : stringTail ('"' :: d :: ds) = (1, true) :=
        stringTail_of_head?_ne (by simpa using hd)
      rw [htail]
      exact stringTail_of_head?_ne (by simpa using hne hd)
  | case3 => rfl
  | case4 c cs hquotes hquote hend =>
    rw [List.map_cons, stringTail_of_ne hquote, stringTail_of_ne (hne hquote), if_pos hend,
      if_pos ((toLower_eq_break c).2 hend)]
  | case5 c cs hquotes hquote hend n closed h ih =>
    rw [List.map_cons, stringTail_of_ne hquote, stringTail_of_ne (hne hquote), ih]
    simp only [toLower_eq_break]

lemma scan_toLower (c : Char) (cs : List Char) :
    scan c.toLower (cs.map Char.toLower) = scan c cs := by
  unfold scan
  simp only [toLower_eq_quote, stringTail_map_toLower]
  split
  case isTrue => rfl
  case isFalse =>
    have hlongest := Regex.longest_map_toLower TokenKind.ignoresCase_patterns (c :: cs)
    rw [List.map_cons] at hlongest
    rw [hlongest]
    -- A letter is never refused, and everything else stays as it is.
    by_cases hc : c ∈ capitals
    · obtain ⟨rule, hmem, hnull⟩ := TokenKind.exists_nullable_deriv hc
      obtain ⟨kind, n, hfound⟩ := Regex.longest_of_deriv hmem hnull cs
      rw [hfound]
    · rw [toLower_of_not_mem hc]

/-- From the lowered source the lowered token is read. -/
lemma next_lower (c : Cursor) :
    c.lower.next = (c.next.1.map Relabel.lower.token, c.next.2.lower) := by
  have hrest : c.lower.skipBlanks.rest = c.skipBlanks.rest.map Char.toLower := by
    rw [skipBlanks_lower]
    rfl
  cases hr : c.skipBlanks.rest with
  | nil =>
    rw [hr] at hrest
    rw [next_of_rest_eq_nil hr, next_of_rest_eq_nil hrest, skipBlanks_lower]
    rfl
  | cons x xs =>
    rw [hr, List.map_cons] at hrest
    cases hs : scan x xs with
    | mk found n =>
      have hs' := (scan_toLower x xs).trans hs
      cases found with
      | error fault =>
        rw [next_of_scan_error hr hs, next_of_scan_error hrest hs', skipBlanks_lower, forward_lower]
        rfl
      | ok kind =>
        rw [next_of_scan_ok hr hs, next_of_scan_ok hrest hs', skipBlanks_lower, forward_lower,
          ← List.map_cons, ← List.map_take, ← lower_ofList]
        rfl

lemma lexemes_lower (n : Nat) (c : Cursor) :
    lexemes n c.lower = (lexemes n c).map (Except.map Relabel.lower.token) := by
  induction n generalizing c with
  | zero => rfl
  | succ n ih => simp only [lexemes, next_lower, ih, List.map_cons]

end Cursor

namespace TokenStream

/-- A lowered source has the lowered tokens, or the same error. -/
theorem ofSource_lower (source : String) :
    ofSource (Ascii.lower source) = (ofSource source).map Relabel.lower.stream := by
  rw [ofSource, length_lower, Cursor.start_lower, Cursor.lexemes_lower, ofLexemes_relabel rfl]
  rfl

end TokenStream

end BrighterCheck
