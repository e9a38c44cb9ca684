import BrighterCheck.Text.Ascii
import BrighterCheck.Text.Range
import BrighterCheck.Text.WhiteSpace
import Mathlib.Tactic.Lemma

/-!
# Letter case

Only the capital letters change when a text is lowered. So a question about characters ignores the
letter case if it has the same answer for both forms of each of these, and texts can be cut, trimmed
and measured before or after they are lowered.
-/

namespace BrighterCheck

namespace Ascii

/-- The capital letters. -/
def capitals : List Char :=
  "ABCDEFGHIJKLMNOPQRSTUVWXYZ".toList

lemma toLower_of_not_mem {c : Char} (hc : c ∉ capitals) : c.toLower = c := by
  unfold Char.toLower
  split
  case isTrue h =>
    exfalso
    apply hc
    have hval : c.val.toNat ∈ capitals.map fun d => d.val.toNat := by
      simp only [ge_iff_le, UInt32.le_iff_toNat_le] at h
      have hle : 65 ≤ c.val.toNat ∧ c.val.toNat ≤ 90 := by simpa using h
      have hlist : capitals.map (fun d => d.val.toNat) = List.range' 65 26 := by decide
      rw [hlist, List.mem_range'_1]
      omega
    obtain ⟨d, hd, he⟩ := List.mem_map.1 hval
    have hcd : d = c := Char.ext (UInt32.toNat_inj.1 he)
    rwa [← hcd]
  case isFalse => rfl

/-- A question about characters with the same answer for both forms of a letter. -/
def IgnoresCase {α : Type} (p : Char → α) : Prop :=
  ∀ c, p c.toLower = p c

/-- Only the capital letters have to be looked at. -/
lemma IgnoresCase.of_forall_capitals {α : Type} {p : Char → α}
    (h : ∀ c ∈ capitals, p c.toLower = p c) : IgnoresCase p := by
  intro c
  by_cases hc : c ∈ capitals
  · exact h c hc
  · rw [toLower_of_not_mem hc]

/-- Looking at the capital letters is a computation. -/
lemma IgnoresCase.of_capitals {α : Type} [DecidableEq α] {p : Char → α}
    (h : capitals.all (fun c => p c.toLower = p c) = true) : IgnoresCase p :=
  .of_forall_capitals fun c hc => of_decide_eq_true (List.all_eq_true.1 h c hc)

lemma toLower_eq_iff {d : Char} (hd : IgnoresCase fun c => decide (c = d)) (c : Char) :
    c.toLower = d ↔ c = d := by
  simpa using hd c

lemma toList_lower (s : String) : (lower s).toList = s.toList.map Char.toLower :=
  String.toList_ofList

lemma lower_ofList (cs : List Char) :
    lower (String.ofList cs) = String.ofList (cs.map Char.toLower) := by
  rw [lower, String.toList_ofList]

lemma lower_append (s t : String) : lower (s ++ t) = lower s ++ lower t := by
  simp [lower]

lemma length_lower (s : String) : (lower s).length = s.length := by
  rw [← String.length_toList, toList_lower, List.length_map, String.length_toList]

/-- A word can be dropped before or after a text is lowered. -/
lemma dropWord?_map_toLower (word text : List Char) :
    dropWord? word (text.map Char.toLower) =
      (dropWord? word text).map (List.map Char.toLower) := by
  induction word generalizing text with
  | nil => rfl
  | cons w word ih =>
    cases text with
    | nil => rfl
    | cons c text =>
      simp only [List.map_cons, dropWord?, toLower_toLower]
      split
      case isTrue => exact ih text
      case isFalse => rfl

end Ascii

open Ascii

namespace Position

lemma step_toLower (p : Position) (c : Char) : p.step c.toLower = p.step c := by
  have hbreak : c.toLower = '\n' ↔ c = '\n' := toLower_eq_iff (.of_capitals (by decide)) c
  have hsize : IgnoresCase Char.utf8Size := .of_capitals (by decide)
  simp only [step, hbreak, hsize c]

/-- A lowered text takes the same place. -/
lemma after_map_toLower (p : Position) (cs : List Char) :
    p.after (cs.map Char.toLower) = p.after cs := by
  rw [after, List.foldl_map]
  simp only [step_toLower]
  rfl

end Position

section Cutting

variable {p : Char → Bool} (hp : IgnoresCase p)
include hp

lemma takeWhile_map_toLower (cs : List Char) :
    (cs.map Char.toLower).takeWhile p = (cs.takeWhile p).map Char.toLower := by
  rw [List.takeWhile_map, show p ∘ Char.toLower = p from funext hp]

lemma dropWhile_map_toLower (cs : List Char) :
    (cs.map Char.toLower).dropWhile p = (cs.dropWhile p).map Char.toLower := by
  rw [List.dropWhile_map, show p ∘ Char.toLower = p from funext hp]

lemma splitAt_map_toLower (cs : List Char) :
    splitAt p (cs.map Char.toLower) = (splitAt p cs).map (List.map Char.toLower) := by
  induction cs with
  | nil => rfl
  | cons c cs ih =>
    simp only [List.map_cons, splitAt, ih, hp c]
    split
    case isTrue => rfl
    case isFalse => cases splitAt p cs <;> rfl

/-- The pieces of a lowered text are the lowered pieces. -/
lemma pieces_map_toLower (cs : List Char) :
    pieces p (cs.map Char.toLower) = (pieces p cs).map (List.map Char.toLower) := by
  simp only [pieces, splitAt_map_toLower hp, List.filter_map, Function.comp_def, List.isEmpty_map]

end Cutting

lemma ignoresCase_isWhiteSpace : IgnoresCase isWhiteSpace :=
  .of_capitals (by decide)

lemma trim_map_toLower (cs : List Char) :
    trim (cs.map Char.toLower) = (trim cs).map Char.toLower := by
  simp only [trim, dropWhile_map_toLower ignoresCase_isWhiteSpace, ← List.map_reverse]

end BrighterCheck
