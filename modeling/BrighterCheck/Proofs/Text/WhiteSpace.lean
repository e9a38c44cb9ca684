import BrighterCheck.Text.WhiteSpace
import Mathlib.Data.List.Induction
import Mathlib.Data.List.TakeWhile
import Mathlib.Tactic.Lemma

/-!
# The pieces of a text

The pieces of a text are what stands in it between separators: longest runs without a separator, of
which the empty ones do not count (`mem_pieces_iff`). They come in the order of the text, whatever
separators stand between them (`pieces_append`).
-/

namespace BrighterCheck

/-- The text `part` stands in `cs` between two separators, or between one and an end of `cs`. -/
structure StandsIn (isSeparator : Char → Bool) (part cs : List Char) : Prop where
  plain : ∀ c ∈ part, isSeparator c = false
  between : ∃ front back, cs = front ++ part ++ back ∧
    (∀ c ∈ front.getLast?, isSeparator c = true) ∧ ∀ c ∈ back.head?, isSeparator c = true

variable {sep : Char → Bool} {part cs : List Char}

/-- The first part reaches up to the first separator. -/
lemma head?_splitAt (sep : Char → Bool) (cs : List Char) :
    (splitAt sep cs).head? = some (cs.takeWhile fun c => !sep c) := by
  induction cs with
  | nil => rfl
  | cons c cs ih =>
    cases hc : sep c with
    | true => simp [splitAt, hc]
    | false =>
      obtain ⟨parts, hparts⟩ := List.head?_eq_some_iff.1 ih
      simp [splitAt, hc, hparts]

lemma tail_splitAt_of_true {c : Char} (hc : sep c = true) :
    (splitAt sep (c :: cs)).tail = splitAt sep cs := by
  simp [splitAt, hc]

lemma tail_splitAt_of_false {c : Char} (hc : sep c = false) :
    (splitAt sep (c :: cs)).tail = (splitAt sep cs).tail := by
  obtain ⟨parts, hparts⟩ := List.head?_eq_some_iff.1 (head?_splitAt sep cs)
  simp [splitAt, hc, hparts]

lemma mem_splitAt_iff :
    part ∈ splitAt sep cs ↔
      part = cs.takeWhile (fun c => !sep c) ∨ part ∈ (splitAt sep cs).tail := by
  obtain ⟨parts, hparts⟩ := List.head?_eq_some_iff.1 (head?_splitAt sep cs)
  rw [hparts, List.mem_cons, List.tail_cons]

/-- What has no separator in it and ends before one is the first part. -/
lemma eq_takeWhile_iff :
    part = cs.takeWhile (fun c => !sep c) ↔
      (∀ c ∈ part, sep c = false) ∧ ∃ back, cs = part ++ back ∧ ∀ c ∈ back.head?, sep c = true := by
  constructor
  · rintro rfl
    refine ⟨fun c hc => ?_, cs.dropWhile fun c => !sep c, List.takeWhile_append_dropWhile.symm, ?_⟩
    · simpa using List.mem_takeWhile_imp hc
    · intro c hc
      have hnot := List.head?_dropWhile_not (fun c => !sep c) cs
      rw [hc] at hnot
      simpa using hnot
  · rintro ⟨hpart, back, rfl, hback⟩
    rw [List.takeWhile_append_of_pos fun c hc => by simp [hpart c hc]]
    cases back with
    | nil => simp
    | cons c back => simp [hback c rfl]

/-- Every later part stands behind a separator. -/
lemma mem_tail_splitAt_iff :
    part ∈ (splitAt sep cs).tail ↔
      (∀ c ∈ part, sep c = false) ∧ ∃ front mark back, cs = front ++ mark :: (part ++ back) ∧
        sep mark = true ∧ ∀ c ∈ back.head?, sep c = true := by
  induction cs with
  | nil => simp [splitAt]
  | cons c cs ih =>
    cases hc : sep c with
    | true =>
      rw [tail_splitAt_of_true hc, mem_splitAt_iff, eq_takeWhile_iff, ih]
      constructor
      · rintro (⟨hpart, back, rfl, hback⟩ | ⟨hpart, front, mark, back, rfl, hmark, hback⟩)
        · exact ⟨hpart, [], c, back, rfl, hc, hback⟩
        · exact ⟨hpart, c :: front, mark, back, rfl, hmark, hback⟩
      · rintro ⟨hpart, front, mark, back, hcs, hmark, hback⟩
        cases front with
        | nil =>
          cases hcs
          exact .inl ⟨hpart, back, rfl, hback⟩
        | cons d front =>
          cases hcs
          exact .inr ⟨hpart, front, mark, back, rfl, hmark, hback⟩
    | false =>
      rw [tail_splitAt_of_false hc, ih]
      constructor
      · rintro ⟨hpart, front, mark, back, rfl, hmark, hback⟩
        exact ⟨hpart, c :: front, mark, back, rfl, hmark, hback⟩
      · rintro ⟨hpart, front, mark, back, hcs, hmark, hback⟩
        cases front with
        | nil =>
          cases hcs
          rw [hmark] at hc
          cases hc
        | cons d front =>
          cases hcs
          exact ⟨hpart, front, mark, back, rfl, hmark, hback⟩

/-- The pieces of a text are the non-empty texts that stand in it between separators. -/
theorem mem_pieces_iff : part ∈ pieces sep cs ↔ part ≠ [] ∧ StandsIn sep part cs := by
  have hsplit : part ∈ splitAt sep cs ↔ StandsIn sep part cs := by
    rw [mem_splitAt_iff, eq_takeWhile_iff, mem_tail_splitAt_iff]
    constructor
    · rintro (⟨hpart, back, rfl, hback⟩ | ⟨hpart, front, mark, back, rfl, hmark, hback⟩)
      · exact ⟨hpart, [], back, rfl, nofun, hback⟩
      · exact ⟨hpart, front ++ [mark], back, by simp, by simpa using hmark, hback⟩
    · rintro ⟨hpart, front, back, rfl, hfront, hback⟩
      cases front using List.reverseRecOn with
      | nil => exact .inl ⟨hpart, back, rfl, hback⟩
      | append_singleton front mark =>
        have hmark : sep mark = true := hfront mark (by simp)
        exact .inr ⟨hpart, front, mark, back, by simp, hmark, hback⟩
  simp [pieces, hsplit, and_comm]

/-- Separators in front of a text add no pieces. -/
lemma pieces_of_separators {gap : List Char} (hgap : ∀ c ∈ gap, sep c = true) (cs : List Char) :
    pieces sep (gap ++ cs) = pieces sep cs := by
  induction gap with
  | nil => rfl
  | cons c gap ih =>
    obtain ⟨hc, hgap⟩ := List.forall_mem_cons.1 hgap
    rw [List.cons_append, ← ih hgap, pieces, splitAt, if_pos hc]
    rfl

/-- What comes before a separator, or before the end of the text, is its first piece. -/
lemma pieces_append {back : List Char} (hpart : ∀ c ∈ part, sep c = false) (hne : part ≠ [])
    (hback : ∀ c ∈ back.head?, sep c = true) :
    pieces sep (part ++ back) = part :: pieces sep back := by
  have htail : (splitAt sep (part ++ back)).tail = (splitAt sep back).tail := by
    clear hne
    induction part with
    | nil => rfl
    | cons c part ih =>
      obtain ⟨hc, hpart⟩ := List.forall_mem_cons.1 hpart
      exact (tail_splitAt_of_false hc).trans (ih hpart)
  have hfirst : (part ++ back).takeWhile (fun c => !sep c) = part :=
    (eq_takeWhile_iff.2 ⟨hpart, back, rfl, hback⟩).symm
  have hnil : back.takeWhile (fun c => !sep c) = [] :=
    (eq_takeWhile_iff.2 ⟨List.forall_mem_nil _, back, rfl, hback⟩).symm
  obtain ⟨parts, hparts⟩ := List.head?_eq_some_iff.1 (head?_splitAt sep (part ++ back))
  obtain ⟨more, hmore⟩ := List.head?_eq_some_iff.1 (head?_splitAt sep back)
  rw [hparts, hmore] at htail
  cases htail
  rw [pieces, pieces, hparts, hmore, hfirst, hnil, List.filter_cons_of_pos (by simp [hne]),
    List.filter_cons_of_neg (by simp)]

/-- White space at the ends of a text is trimmed, and nothing else is. -/
lemma trim_append {lead trail : List Char} (hlead : ∀ c ∈ lead, isWhiteSpace c = true)
    (htrail : ∀ c ∈ trail, isWhiteSpace c = true) (hfirst : ∀ c ∈ cs.head?, isWhiteSpace c = false)
    (hlast : ∀ c ∈ cs.getLast?, isWhiteSpace c = false) (hne : cs ≠ []) :
    trim (lead ++ cs ++ trail) = cs := by
  have hdrop {ds : List Char} (hds : ∀ c ∈ ds.head?, isWhiteSpace c = false) :
      ds.dropWhile isWhiteSpace = ds := by
    cases ds with
    | nil => rfl
    | cons d ds => rw [List.dropWhile_cons, hds d rfl, if_neg Bool.false_ne_true]
  have hcs : ∀ c ∈ (cs ++ trail).head?, isWhiteSpace c = false := by
    obtain ⟨c, rest, rfl⟩ := List.exists_cons_of_ne_nil hne
    exact hfirst
  have hreverse : ∀ c ∈ cs.reverse.head?, isWhiteSpace c = false := by
    rw [List.head?_reverse]
    exact hlast
  rw [trim, List.append_assoc, List.dropWhile_append_of_pos hlead, hdrop hcs, List.reverse_append,
    List.dropWhile_append_of_pos fun c hc => htrail c (List.mem_reverse.1 hc), hdrop hreverse,
    List.reverse_reverse]

end BrighterCheck
