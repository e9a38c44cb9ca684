import BrighterCheck.Proofs.Diagnostic.Relabel
import BrighterCheck.Proofs.Lexer.LetterCase

/-!
# Flags in any letter case

Directives and the letters before a code are matched in any letter case, and nothing else in a flag
has letters. So a lowered comment is the same flag.
-/

namespace BrighterCheck

open Ascii

/-- Digits and signs have no letter case. -/
lemma code?_map_toLower (cs : List Char) : code? (cs.map Char.toLower) = code? cs := by
  have hvalue (cs : List Char) : digitsValue? (cs.map Char.toLower) = digitsValue? cs := by
    have hdigit : IgnoresCase Char.isDigit := .of_capitals (by decide)
    have hstep (value : Option Nat) (c : Char) : (value.bind fun n =>
        if c.toLower.isDigit then some (10 * n + (c.toLower.toNat - '0'.toNat)) else none) =
        value.bind fun n =>
          if c.isDigit then some (10 * n + (c.toNat - '0'.toNat)) else none := by
      by_cases hc : c ∈ capitals
      · have hall : capitals.all (fun c => !c.isDigit) = true := by decide
        have hletter : c.isDigit = false := by simpa using List.all_eq_true.1 hall c hc
        simp only [hdigit c, hletter]
        rfl
      · rw [toLower_of_not_mem hc]
    rw [digitsValue?, List.foldl_map]
    simp only [hstep]
    rfl
  have hnatural (cs : List Char) : natural? (cs.map Char.toLower) = natural? cs := by
    rw [natural?, List.isEmpty_map, hvalue, natural?]
  have hplain {c : Char} (hc : c ≠ '+') (cs : List Char) :
      code? (c :: cs) = (natural? (c :: cs)).filter (· < codeBound) := by
    unfold code?
    split
    case h_1 heq =>
      cases heq
      exact absurd rfl hc
    case h_2 => rfl
  cases cs with
  | nil => rfl
  | cons c cs =>
    by_cases hc : c = '+'
    · subst hc
      exact congrArg (Option.filter (· < codeBound)) (hnatural cs)
    · have hc' : c.toLower ≠ '+' := fun h =>
        hc ((toLower_eq_iff (.of_capitals (by decide)) c).1 h)
      rw [List.map_cons, hplain hc, hplain hc', ← List.map_cons, hnatural]

namespace CommentFlag

lemma body_map_toLower (cs : List Char) :
    body (cs.map Char.toLower) = (body cs).map Char.toLower := by
  have hplain {c : Char} (hc : c ≠ '\'') (cs : List Char) :
      body (c :: cs) = (dropWord? "rem".toList (c :: cs)).getD (c :: cs) := by
    rw [body]
    exact fun _ h => hc (List.cons.inj h).1
  cases cs with
  | nil => rfl
  | cons c cs =>
    by_cases hc : c = '\''
    · subst hc
      rfl
    · have hc' : c.toLower ≠ '\'' :=
        fun h => hc ((toLower_eq_iff (.of_capitals (by decide)) c).1 h)
      rw [List.map_cons, hplain hc, hplain hc', ← List.map_cons, dropWord?_map_toLower]
      cases dropWord? "rem".toList (c :: cs) <;> rfl

lemma directive?_map_toLower (line : Nat) (text : List Char) :
    directive? line (text.map Char.toLower) =
      (directive? line text).map fun (rest, affected) => (rest.map Char.toLower, affected) := by
  rw [directive?, directive?, dropWord?_map_toLower, dropWord?_map_toLower]
  cases dropWord? "bs:disable-next-line".toList text with
  | some rest => rfl
  | none => cases dropWord? "bs:disable-line".toList text <;> rfl

lemma list?_map_toLower (cs : List Char) :
    list? (cs.map Char.toLower) = (list? cs).map (List.map Char.toLower) := by
  have hplain {c : Char} (hc : c ≠ ':') (cs : List Char) :
      list? (c :: cs) = if isWhiteSpace c then some (c :: cs) else none := by
    unfold list?
    split
    case h_1 heq =>
      cases heq
    case h_2 heq =>
      cases heq
      exact absurd rfl hc
    case h_3 heq =>
      cases heq
      rfl
  cases cs with
  | nil => rfl
  | cons c cs =>
    by_cases hc : c = ':'
    · subst hc
      rfl
    · have hc' : c.toLower ≠ ':' := fun h =>
        hc ((toLower_eq_iff (.of_capitals (by decide)) c).1 h)
      rw [List.map_cons, hplain hc, hplain hc', ignoresCase_isWhiteSpace c]
      split
      case isTrue => rfl
      case isFalse => rfl

lemma codesOf_map_toLower (cs : List Char) : codesOf (cs.map Char.toLower) = codesOf cs := by
  have hseparator : IgnoresCase fun c => isWhiteSpace c || c == ',' :=
    .of_capitals (by decide)
  have hcode (piece : List Char) : codeOf? (piece.map Char.toLower) = codeOf? piece := by
    rw [codeOf?, codeOf?, dropWord?_map_toLower]
    cases dropWord? "bs".toList piece with
    | none => exact code?_map_toLower piece
    | some rest => exact code?_map_toLower rest
  simp only [codesOf, pieces_map_toLower hseparator, List.filterMap_map, Function.comp_def, hcode]

/-- A lowered comment is the same flag. -/
lemma ofComment?_lower (line : Nat) (text : String) :
    ofComment? line (Ascii.lower text) = ofComment? line text := by
  rw [ofComment?, ofComment?, toList_lower, body_map_toLower, trim_map_toLower,
    directive?_map_toLower]
  cases directive? line (trim (body text.toList)) with
  | none => rfl
  | some directive =>
    obtain ⟨rest, affected⟩ := directive
    simp only [Option.map_some, Option.bind_eq_bind, Option.bind_some, list?_map_toLower]
    cases list? rest with
    | none => rfl
    | some list => simp only [Option.map_some, Option.bind_some, codesOf_map_toLower]

/-- Lowered tokens have the same flags among them. -/
theorem ofTokens_lower (tokens : List Token) :
    ofTokens (tokens.map Relabel.lower.token) = ofTokens tokens :=
  ofTokens_relabel Relabel.inPlace_lower ofComment?_lower tokens

end CommentFlag

end BrighterCheck
