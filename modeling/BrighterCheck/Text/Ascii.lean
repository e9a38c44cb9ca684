/-!
# ASCII letter case

Keywords, names and codes are compared without regard to the case of ASCII letters; every other
character is compared as it stands. `dropWord?` takes a word off the front of a text, which
succeeds exactly if the text starts with it in some letter case.
-/

namespace BrighterCheck.Ascii

/-- `lower s` is `s` with its ASCII capital letters turned into small ones. -/
def lower (s : String) : String :=
  String.ofList (s.toList.map Char.toLower)

/-- Small letters stay as they are. -/
theorem toLower_toLower (c : Char) : c.toLower.toLower = c.toLower := by
  unfold Char.toLower
  split
  · rename_i h
    split
    · rename_i h'
      exfalso
      simp only [ge_iff_le, UInt32.le_iff_toNat_le] at h h'
      simp at h h'
      omega
    · rfl
  · rfl

/-- Lowering a text twice is lowering it once. -/
theorem lower_lower (s : String) : lower (lower s) = lower s := by
  simp only [lower, String.toList_ofList, List.map_map, Function.comp_def, toLower_toLower]

/-- Two texts are the same word if they differ at most in the case of ASCII letters. -/
def sameWord (s t : String) : Bool :=
  lower s == lower t

theorem sameWord_iff {s t : String} : sameWord s t = true ↔ lower s = lower t := by
  simp [sameWord]

/-- The rest of `text` after `word`, if `text` starts with `word` in some letter case. -/
def dropWord? : (word text : List Char) → Option (List Char)
  | [], text => some text
  | _ :: _, [] => none
  | w :: word, c :: text => if c.toLower = w.toLower then dropWord? word text else none

/-- A word is dropped from a text exactly if the text starts with it in some letter case. -/
theorem dropWord?_eq_some_iff {word text rest : List Char} :
    dropWord? word text = some rest ↔
      ∃ start, text = start ++ rest ∧ start.map Char.toLower = word.map Char.toLower := by
  induction word generalizing text with
  | nil =>
    constructor
    · intro h
      exact ⟨[], by simpa [dropWord?] using h⟩
    · rintro ⟨start, rfl, h⟩
      simp_all [dropWord?]
  | cons w word ih =>
    cases text with
    | nil =>
      constructor
      · intro h
        simp [dropWord?] at h
      · rintro ⟨start, h, h'⟩
        simp_all
    | cons c text =>
      by_cases h : c.toLower = w.toLower
      · rw [dropWord?, if_pos h, ih]
        constructor
        · rintro ⟨start, rfl, h'⟩
          exact ⟨c :: start, rfl, by simp [h, h']⟩
        · rintro ⟨start, h', h''⟩
          cases start with
          | nil => simp at h''
          | cons d start =>
            simp only [List.cons_append, List.cons.injEq] at h'
            simp only [List.map_cons, List.cons.injEq] at h''
            exact ⟨start, h'.2, h''.2⟩
      · rw [dropWord?, if_neg h]
        constructor
        · intro h'
          cases h'
        · rintro ⟨start, h', h''⟩
          cases start with
          | nil => simp at h''
          | cons d start =>
            simp only [List.cons_append, List.cons.injEq] at h'
            simp only [List.map_cons, List.cons.injEq] at h''
            exact absurd (h'.1 ▸ h''.1) h

end BrighterCheck.Ascii
