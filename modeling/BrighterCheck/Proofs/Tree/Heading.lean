import BrighterCheck.Proofs.Report.Locus
import BrighterCheck.Tree.Outline

/-!
# The lines of an outline can be read

A line of an outline tells the number of ancestors of a node, its kind, its label and its range. The
blanks in front end where the kind starts, and the kind ends at the next blank. The range starts
behind the last at sign, whatever the label is, and only nodes without a label are shown without a
range. So all four can be told from the line (`Heading.text_inj`).
-/

namespace BrighterCheck

/-! ### Texts that can be told apart -/

/-- A text of characters in some class can be told from what starts outside the class. -/
lemma append_inj_of_class {p : Char → Bool} {us us' vs vs' : List Char}
    (h : us ++ vs = us' ++ vs') (hu : ∀ c ∈ us, p c = true) (hu' : ∀ c ∈ us', p c = true)
    (hv : ∀ c ∈ vs.head?, p c = false) (hv' : ∀ c ∈ vs'.head?, p c = false) :
    us = us' ∧ vs = vs' := by
  have hclass {us vs : List Char} (hu : ∀ c ∈ us, p c = true) (hv : ∀ c ∈ vs.head?, p c = false) :
      (us ++ vs).takeWhile p = us := by
    rw [List.takeWhile_append_of_pos hu]
    cases vs with
    | nil => exact List.append_nil us
    | cons c cs =>
      have hc : ¬ p c = true := Bool.eq_false_iff.1 (hv c rfl)
      rw [List.takeWhile_cons_of_neg hc, List.append_nil]
  have hus : us = us' := by
    rw [← hclass hu hv, h, hclass hu' hv']
  subst hus
  exact ⟨rfl, List.append_cancel_left h⟩

/-- What stands behind the last sign of a kind can be told from what is in front. -/
lemma append_cons_inj_of_notMem {x : Char} {us us' vs vs' : List Char}
    (h : us ++ x :: vs = us' ++ x :: vs') (hv : x ∉ vs) (hv' : x ∉ vs') : us = us' ∧ vs = vs' := by
  have hreverse : vs.reverse ++ x :: us.reverse = vs'.reverse ++ x :: us'.reverse := by
    simpa using congrArg List.reverse h
  have hother {vs : List Char} (hv : x ∉ vs) : ∀ c ∈ vs.reverse, (c != x) = true := by
    intro c hc
    refine bne_iff_ne.2 fun he => ?_
    exact hv (he ▸ List.mem_reverse.1 hc)
  obtain ⟨hvs, hus⟩ := append_inj_of_class (p := (· != x)) hreverse (hother hv) (hother hv')
    (by simp) (by simp)
  exact ⟨List.reverse_inj.1 (List.cons.inj hus).2, List.reverse_inj.1 hvs⟩

/-- Different numbers have different digits. -/
lemma toDigits_inj {m n : Nat} (h : Nat.toDigits 10 m = Nat.toDigits 10 n) : m = n := by
  have hcolon : Nat.toDigits 10 m ++ [':'] = Nat.toDigits 10 n ++ [':'] := congrArg (· ++ [':']) h
  exact (toDigits_append_inj rfl hcolon).1

namespace Range

lemma toList_display (r : Range) : r.display.toList =
    Nat.toDigits 10 (nextIndex r.start.line) ++
      ':' :: (Nat.toDigits 10 (nextIndex r.start.column) ++
        '-' :: (Nat.toDigits 10 (nextIndex r.finish.line) ++
          ':' :: Nat.toDigits 10 (nextIndex r.finish.column))) := by
  show ((Nat.repr _ ++ ":" ++ Nat.repr _) ++ "-" ++ (Nat.repr _ ++ ":" ++ Nat.repr _)).toList = _
  simp only [String.toList_append, Nat.toList_repr]
  simp

/-- Different ranges are shown differently. -/
lemma display_inj {r r' : Range} (h : r.display.toList = r'.display.toList) : r = r' := by
  rw [toList_display, toList_display] at h
  obtain ⟨hline, h⟩ := toDigits_append_inj rfl h
  obtain ⟨hcolumn, h⟩ := toDigits_append_inj rfl h
  obtain ⟨hline', h⟩ := toDigits_append_inj rfl h
  have hcolumn' := toDigits_inj h
  obtain ⟨⟨line, column⟩, ⟨line', column'⟩⟩ := r
  obtain ⟨⟨_, _⟩, ⟨_, _⟩⟩ := r'
  rw [nextIndex_inj] at hline hcolumn hline' hcolumn'
  simp_all

/-- A range is shown with digits, colons and a hyphen. -/
lemma notMem_display {c : Char} (hdigit : c.isDigit = false) (hcolon : c ≠ ':') (hhyphen : c ≠ '-')
    (r : Range) : c ∉ r.display.toList := by
  have hdigits (n : Nat) : c ∉ Nat.toDigits 10 n := by
    intro hmem
    have hc := Nat.isDigit_of_mem_toDigits (by decide) (by decide) hmem
    rw [hdigit] at hc
    cases hc
  rw [toList_display]
  simp [hdigits, hcolon, hhyphen]

end Range

/-! ### Headings -/

/-- What a line of an outline tells of a node. -/
structure Heading where
  depth : Nat
  kind : String
  label : Option String
  range : Option Range

namespace Heading

/-- A label as it is shown. -/
def labelText (label : Option String) : List Char :=
  (label.map fun label => ' ' :: label.toList).getD []

/-- A range as it is shown. -/
def rangeText (range : Option Range) : List Char :=
  (range.map fun range => ' ' :: '@' :: ' ' :: range.display.toList).getD []

/-- The line of an outline: two blanks for each ancestor, then the kind, the label and the range. -/
def text (h : Heading) : List Char :=
  List.replicate (2 * h.depth) ' ' ++
    (h.kind.toList ++ (labelText h.label ++ rangeText h.range))

/-- The kind is a word, and only what has no label is shown without a range. -/
structure IsReadable (h : Heading) : Prop where
  kind_ne : h.kind.toList ≠ []
  blank_notMem : ' ' ∉ h.kind.toList
  label_eq : h.range = none → h.label = none

variable {h h' : Heading}

lemma labelText_inj {label label' : Option String} (h : labelText label = labelText label') :
    label = label' := by
  cases label with
  | none =>
    cases label' with
    | none => rfl
    | some label' => cases h
  | some label =>
    cases label' with
    | none => cases h
    | some label' => exact congrArg some (String.toList_inj.1 (List.cons.inj h).2)

lemma head?_labelText_append (label : Option String) (range : Option Range) :
    ∀ c ∈ (labelText label ++ rangeText range).head?, c = ' ' := by
  cases label <;> cases range <;> simp [labelText, rangeText]

/-- The label and the range can be told from what stands behind the kind. -/
lemma label_range_inj {label label' : Option String} {range range' : Option Range}
    (hl : range = none → label = none) (hl' : range' = none → label' = none)
    (h : labelText label ++ rangeText range = labelText label' ++ rangeText range') :
    label = label' ∧ range = range' := by
  cases range with
  | none =>
    cases hl rfl
    cases range' with
    | none =>
      cases hl' rfl
      exact ⟨rfl, rfl⟩
    | some r' => exact absurd h.symm (by simp [labelText, rangeText])
  | some r =>
    cases range' with
    | none =>
      cases hl' rfl
      exact absurd h (by simp [labelText, rangeText])
    | some r' =>
      -- The range is what stands behind the last at sign.
      have hsplit (label : Option String) (r : Range) : labelText label ++ rangeText (some r) =
          (labelText label ++ [' ']) ++ '@' :: (' ' :: r.display.toList) := by
        simp [rangeText]
      have hplain (r : Range) : '@' ∉ ' ' :: r.display.toList := by
        simp [r.notMem_display (c := '@') rfl]
      rw [hsplit, hsplit] at h
      obtain ⟨hlabel, hrange⟩ := append_cons_inj_of_notMem h (hplain r) (hplain r')
      rw [labelText_inj (List.append_cancel_right hlabel),
        Range.display_inj (List.cons.inj hrange).2]
      exact ⟨rfl, rfl⟩

/-- All that a line of an outline tells can be read from it. -/
theorem text_inj (hr : h.IsReadable) (hr' : h'.IsReadable) (he : h.text = h'.text) : h = h' := by
  obtain ⟨depth, kind, label, range⟩ := h
  obtain ⟨depth', kind', label', range'⟩ := h'
  have hother {kind : String} (hplain : ' ' ∉ kind.toList) :
      ∀ c ∈ kind.toList, (c == ' ') = false := by
    intro c hc
    refine beq_eq_false_iff_ne.2 fun he => ?_
    exact hplain (he ▸ hc)
  have hfirst {kind : String} (hne : kind.toList ≠ []) (hplain : ' ' ∉ kind.toList)
      (cs : List Char) : ∀ c ∈ (kind.toList ++ cs).head?, (c == ' ') = false := by
    obtain ⟨x, xs, hkind⟩ := List.exists_cons_of_ne_nil hne
    intro c hc
    refine hother hplain c ?_
    rw [hkind] at hc ⊢
    cases hc
    exact .head _
  obtain ⟨hdepth, he⟩ := append_inj_of_class (p := (· == ' ')) he (by simp) (by simp)
    (hfirst hr.kind_ne hr.blank_notMem _) (hfirst hr'.kind_ne hr'.blank_notMem _)
  have hbehind (label : Option String) (range : Option Range) :
      ∀ c ∈ (labelText label ++ rangeText range).head?, (!(c == ' ')) = false := by
    intro c hc
    rw [head?_labelText_append label range c hc]
    rfl
  have hword {kind : String} (hplain : ' ' ∉ kind.toList) :
      ∀ c ∈ kind.toList, (!(c == ' ')) = true := by
    intro c hc
    rw [hother hplain c hc]
    rfl
  obtain ⟨hkind, he⟩ := append_inj_of_class he (hword hr.blank_notMem) (hword hr'.blank_notMem)
    (hbehind _ _) (hbehind _ _)
  obtain ⟨rfl, rfl⟩ := label_range_inj hr.label_eq hr'.label_eq he
  cases String.toList_inj.1 hkind
  have hlength := congrArg List.length hdepth
  rw [List.length_replicate, List.length_replicate] at hlength
  cases Nat.eq_of_mul_eq_mul_left (by decide) hlength
  rfl

/-- All that the lines of an outline tell can be read from them. -/
lemma map_text_inj {hs hs' : List Heading} (hr : ∀ h ∈ hs, h.IsReadable)
    (hr' : ∀ h ∈ hs', h.IsReadable)
    (he : (hs.map fun h => h.text ++ ['\n']) = hs'.map fun h => h.text ++ ['\n']) : hs = hs' := by
  induction hs generalizing hs' with
  | nil => exact (List.map_eq_nil_iff.1 he.symm).symm
  | cons h hs ih =>
    cases hs' with
    | nil => cases he
    | cons h' hs' =>
      obtain ⟨hh, hhs⟩ := List.forall_mem_cons.1 hr
      obtain ⟨hh', hhs'⟩ := List.forall_mem_cons.1 hr'
      obtain ⟨hfirst, hrest⟩ := List.cons.inj he
      rw [text_inj hh hh' (List.append_cancel_right hfirst), ih hhs hhs' hrest]

end Heading

end BrighterCheck
