import BrighterCheck.Diagnostic.Suppression
import BrighterCheck.Proofs.Text.LetterCase
import BrighterCheck.Proofs.Text.Number
import BrighterCheck.Proofs.Text.WhiteSpace

/-!
# What flags suppress

A flag suppresses the diagnostics of its line whose codes are items of its list, in one of the forms
`N` and `BSN`. A list without such an item counts as no list, so that a flag whose list holds only
misspelt codes suppresses every diagnostic of its line (`suppresses_iff_of_directs`).
-/

namespace BrighterCheck.CommentFlag

/-- The characters between the items of a list. -/
def separatesItems (c : Char) : Bool :=
  isWhiteSpace c || c == ','

/-- The text `item` is an item of a list: a longest run without separators. -/
def IsItem (item list : List Char) : Prop :=
  item ≠ [] ∧ StandsIn separatesItems item list

/-- The text `item` writes the code `n`, with or without the letters that diagnostics show. -/
def Writes (item : List Char) (n : Nat) : Prop :=
  IsCode item n ∨
    ∃ mark digits, item = mark ++ digits ∧ mark.map Char.toLower = "bs".toList ∧ IsCode digits n

/-- The text `word` is a directive for the line `affected` in a comment on `line`. -/
def IsDirective (line : Nat) (word : List Char) (affected : Nat) : Prop :=
  word.map Char.toLower = "bs:disable-next-line".toList ∧ affected = nextIndex line ∨
    word.map Char.toLower = "bs:disable-line".toList ∧ affected = line

/--
The comment `text` on `line` is a flag for the line `affected`: after its mark and blanks it holds a
directive, and behind that `list`, which follows a colon or starts with white space.
-/
inductive Directs (line : Nat) (text : String) (affected : Nat) (list : List Char) : Prop where
  | colon {word : List Char} : IsDirective line word affected →
      trim (body text.toList) = word ++ ':' :: list → Directs line text affected list
  | blank {word : List Char} : IsDirective line word affected →
      trim (body text.toList) = word ++ list → (∀ c ∈ list.head?, isWhiteSpace c = true) →
      Directs line text affected list

variable {line affected n : Nat} {text : String} {item list : List Char} {f : CommentFlag}

/-- A word in small letters is dropped from a text that starts with it in some letter case. -/
lemma dropWord?_small {small cs rest : List Char} (hsmall : small.map Char.toLower = small) :
    Ascii.dropWord? small cs = some rest ↔
      ∃ word, cs = word ++ rest ∧ word.map Char.toLower = small := by
  rw [Ascii.dropWord?_eq_some_iff, hsmall]

/-- No text starts with both directives. -/
lemma dropWord?_next_line {word rest : List Char}
    (h : word.map Char.toLower = "bs:disable-line".toList) :
    Ascii.dropWord? "bs:disable-next-line".toList (word ++ rest) = none := by
  rw [Option.eq_none_iff_forall_ne_some]
  intro rest' h'
  obtain ⟨word', hword, hlower⟩ := (dropWord?_small rfl).1 h'
  have heq : "bs:disable-line".toList ++ rest.map Char.toLower =
      "bs:disable-next-line".toList ++ rest'.map Char.toLower := by
    rw [← h, ← hlower, ← List.map_append, ← List.map_append, hword]
  -- The directives differ in the first letter behind what they have in common.
  have hletter : some 'l' = some 'n' := congrArg (·[11]?) heq
  cases hletter

lemma directive?_eq_some_iff {cs rest : List Char} :
    directive? line cs = some (rest, affected) ↔
      ∃ word, IsDirective line word affected ∧ cs = word ++ rest := by
  unfold directive?
  constructor
  · intro h
    split at h
    case h_1 rest' hnext =>
      cases h
      obtain ⟨word, rfl, hword⟩ := (dropWord?_small rfl).1 hnext
      exact ⟨word, .inl ⟨hword, rfl⟩, rfl⟩
    case h_2 =>
      obtain ⟨rest', hsame, hrest⟩ := Option.map_eq_some_iff.1 h
      cases hrest
      obtain ⟨word, rfl, hword⟩ := (dropWord?_small rfl).1 hsame
      exact ⟨word, .inr ⟨hword, rfl⟩, rfl⟩
  · rintro ⟨word, ⟨hword, rfl⟩ | ⟨hword, rfl⟩, rfl⟩
    · rw [(dropWord?_small rfl).2 ⟨word, rfl, hword⟩]
    · rw [dropWord?_next_line hword, (dropWord?_small rfl).2 ⟨word, rfl, hword⟩]
      rfl

lemma list?_eq_some_iff {rest : List Char} :
    list? rest = some list ↔
      rest = ':' :: list ∨ rest = list ∧ ∀ c ∈ list.head?, isWhiteSpace c = true := by
  unfold list?
  split
  case h_1 =>
    constructor
    · rintro ⟨⟩
      exact .inr ⟨rfl, nofun⟩
    · rintro (h | ⟨rfl, -⟩)
      · cases h
      · rfl
  case h_2 behind =>
    constructor
    · rintro ⟨⟩
      exact .inl rfl
    · rintro (h | ⟨rfl, h⟩)
      · cases h
        rfl
      · exact absurd (h ':' rfl) (by decide)
  case h_3 c behind hc =>
    have hcolon : c :: behind ≠ ':' :: list := by
      rintro ⟨⟩
      exact hc rfl
    cases hw : isWhiteSpace c with
    | true =>
      rw [if_pos rfl, Option.some.injEq]
      refine ⟨fun h => .inr ⟨h, h ▸ by simpa using hw⟩, fun h => ?_⟩
      exact (h.resolve_left hcolon).1
    | false =>
      rw [if_neg Bool.false_ne_true]
      refine ⟨nofun, fun h => ?_⟩
      obtain ⟨rfl, hspace⟩ := h.resolve_left hcolon
      rw [hspace c rfl] at hw
      cases hw

lemma directs_iff :
    Directs line text affected list ↔
      ∃ rest, directive? line (trim (body text.toList)) = some (rest, affected) ∧
        list? rest = some list := by
  simp only [directive?_eq_some_iff, list?_eq_some_iff]
  constructor
  · intro h
    cases h with
    | colon hword htext => exact ⟨_, ⟨_, hword, htext⟩, .inl rfl⟩
    | blank hword htext hlist => exact ⟨_, ⟨_, hword, htext⟩, .inr ⟨rfl, hlist⟩⟩
  · rintro ⟨rest, ⟨word, hword, htext⟩, rfl | ⟨rfl, hlist⟩⟩
    · exact .colon hword htext
    · exact .blank hword htext hlist

/-- A comment is a flag exactly if it has the form of one. -/
theorem ofComment?_eq_some_iff :
    ofComment? line text = some f ↔ ∃ list, Directs line text f.line list ∧
      f.codes = if (codesOf list).isEmpty then none else some (codesOf list) := by
  unfold ofComment?
  constructor
  · intro h
    obtain ⟨⟨rest, affected⟩, hdirective, h⟩ := Option.bind_eq_some_iff.1 h
    obtain ⟨list, hlist, h⟩ := Option.bind_eq_some_iff.1 h
    cases h
    exact ⟨list, directs_iff.2 ⟨rest, hdirective, hlist⟩, rfl⟩
  · rintro ⟨list, hdirects, hcodes⟩
    obtain ⟨rest, hdirective, hlist⟩ := directs_iff.1 hdirects
    refine Option.bind_eq_some_iff.2 ⟨_, hdirective, ?_⟩
    refine Option.bind_eq_some_iff.2 ⟨list, hlist, ?_⟩
    cases f
    cases hcodes
    rfl

/-- A code starts with a digit or a plus sign, and with no letter. -/
lemma not_isCode_of_letters {mark digits : List Char} (h : mark.map Char.toLower = "bs".toList) :
    ¬ IsCode (mark ++ digits) n := by
  obtain ⟨c, mark, rfl, hc, -⟩ := List.map_eq_cons_iff.1 h
  have hcase : Ascii.IgnoresCase fun c => c.isDigit || c == '+' := .of_capitals (by decide)
  have hfirst : (c.isDigit || c == '+') = false := by
    have hletter := hcase c
    simp only [hc] at hletter
    exact hletter.symm
  rw [Bool.or_eq_false_iff] at hfirst
  rintro ⟨-, hnumeral | ⟨_, hplus, -⟩⟩
  · rw [hnumeral.isDigit c (.head _)] at hfirst
    cases hfirst.1
  · cases hplus
    cases hfirst.2

/-- The letters of an item are not read as a part of its code. -/
theorem codeOf?_eq_some_iff : codeOf? item = some n ↔ Writes item n := by
  unfold codeOf? Writes
  rw [code?_eq_some_iff]
  cases h : Ascii.dropWord? "bs".toList item with
  | none =>
    refine ⟨.inl, fun hwrites => hwrites.resolve_right ?_⟩
    rintro ⟨mark, digits, rfl, hmark, -⟩
    rw [(dropWord?_small rfl).2 ⟨mark, rfl, hmark⟩] at h
    cases h
  | some digits =>
    obtain ⟨mark, rfl, hmark⟩ := (dropWord?_small rfl).1 h
    refine ⟨fun hcode => .inr ⟨mark, digits, rfl, hmark, hcode⟩, fun hwrites => ?_⟩
    obtain ⟨mark', digits', hsplit, hmark', hcode⟩ :=
      hwrites.resolve_left (not_isCode_of_letters hmark)
    have hlength : mark.length = mark'.length := by
      rw [← List.length_map, hmark, ← hmark', List.length_map]
    obtain ⟨-, rfl⟩ := List.append_inj hsplit hlength
    exact hcode

/-- The codes of a list are those that its items write. -/
lemma mem_codesOf : n ∈ codesOf list ↔ ∃ item, IsItem item list ∧ Writes item n := by
  simp only [codesOf, List.mem_filterMap, codeOf?_eq_some_iff]
  exact exists_congr fun item => and_congr_left fun _ => mem_pieces_iff

/--
Every comment that has the form of a flag is one for the line that it names. It suppresses the
diagnostics that start on this line and have a code that its list writes; if no item of its list
writes a code, whether there are items or not, it suppresses all that start there.
-/
theorem suppresses_iff_of_directs (h : Directs line text affected list) :
    ∃ f, ofComment? line text = some f ∧ f.line = affected ∧
      ∀ d : Diagnostic, f.suppresses d = true ↔
        (∃ range, d.range = some range ∧ range.start.line = affected) ∧
          ((∃ item, IsItem item list ∧ Writes item d.code) ∨
            ∀ item, IsItem item list → ∀ n, ¬ Writes item n) := by
  let codes := if (codesOf list).isEmpty then none else some (codesOf list)
  have hflag : ofComment? line text = some ⟨affected, codes⟩ :=
    ofComment?_eq_some_iff.2 ⟨list, h, rfl⟩
  refine ⟨⟨affected, codes⟩, hflag, rfl, fun d => ?_⟩
  have hnone : (codesOf list).isEmpty = true ↔ ∀ item, IsItem item list → ∀ n, ¬ Writes item n := by
    rw [List.isEmpty_iff, List.eq_nil_iff_forall_not_mem]
    simp only [mem_codesOf, not_exists, not_and]
    exact ⟨fun hall item hitem n => hall n item hitem, fun hall n item hitem => hall item hitem n⟩
  rw [← hnone, ← mem_codesOf]
  unfold suppresses
  cases d.range with
  | none => simp
  | some range =>
    cases hcodes : codesOf list with
    | nil => simp [codes, hcodes]
    | cons c more => simp [codes, hcodes]

/-- A code and a misspelt one in a list: the flag is for the code alone. -/
theorem suppresses_iff_of_misspelt :
    let list := " bs1106,11O7".toList
    Directs 3 "'BS:Disable-Line: bs1106,11O7" 3 list ∧
      ∃ f, ofComment? 3 "'BS:Disable-Line: bs1106,11O7" = some f ∧
        ∀ d : Diagnostic, f.suppresses d = true ↔
          (∃ range, d.range = some range ∧ range.start.line = 3) ∧ d.code = 1106 := by
  intro list
  have hword : IsDirective 3 "BS:Disable-Line".toList 3 := .inr ⟨by decide +kernel, rfl⟩
  have hdirects : Directs 3 "'BS:Disable-Line: bs1106,11O7" 3 list :=
    .colon hword (by decide +kernel)
  have hcodes (n : Nat) : (∃ item, IsItem item list ∧ Writes item n) ↔ n = 1106 := by
    have hlist : codesOf list = [1106] := by decide +kernel
    rw [← mem_codesOf, hlist, List.mem_singleton]
  obtain ⟨item, hitem, hwrites⟩ := (hcodes 1106).2 rfl
  obtain ⟨f, hf, -, hsuppresses⟩ := suppresses_iff_of_directs hdirects
  refine ⟨hdirects, f, hf, fun d => ?_⟩
  rw [hsuppresses, hcodes, or_iff_left fun hnone => hnone item hitem 1106 hwrites]

/-- A list with one misspelt code: the flag suppresses codes that the list does not have. -/
theorem suppresses_unlisted :
    let d : Diagnostic := ⟨1110, "", some ⟨⟨0, 0⟩, ⟨0, 5⟩⟩, .error, 0⟩
    ∃ f list, Directs 0 "'bs:disable-line BS11O9" 0 list ∧ (∃ item, IsItem item list) ∧
      ofComment? 0 "'bs:disable-line BS11O9" = some f ∧ f.suppresses d = true ∧
      ¬ ∃ item, IsItem item list ∧ Writes item d.code := by
  intro d
  let list := " BS11O9".toList
  refine ⟨⟨0, none⟩, list, ?_, ⟨"BS11O9".toList, ?_⟩, by decide +kernel, by decide +kernel, ?_⟩
  · have hword : IsDirective 0 "bs:disable-line".toList 0 := .inr ⟨by decide +kernel, rfl⟩
    have hhead : list.head? = some ' ' := by decide +kernel
    refine .blank hword (by decide +kernel) fun c hc => ?_
    rw [hhead] at hc
    cases hc
    rfl
  · exact mem_pieces_iff.1 (by decide +kernel)
  · have hlist : codesOf list = [] := by decide +kernel
    rw [← mem_codesOf, hlist]
    exact List.not_mem_nil

end BrighterCheck.CommentFlag
