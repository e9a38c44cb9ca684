import BrighterCheck.Proofs.Lexer.LetterCase
import BrighterCheck.Proofs.Lexer.Munch
import BrighterCheck.Proofs.Tree.Wording

/-!
# Tokens with contents

A comment and the message of `#error` run from what opens them to the end of their line, a string to
its closing quote. What opens contents stands nowhere inside another token, which would go past it
on its line (`opens_or_isPlain`).
-/

namespace BrighterCheck

namespace Regex

variable {α : Type} {rules : List (α × Regex)} {r : Regex} {x : Char}

/-- What is left of rules after a text. -/
def advanceAll : List Char → List (α × Regex) → List (α × Regex)
  | [], rules => rules
  | c :: cs, rules => advanceAll cs (advance c rules)

lemma advanceAll_append (cs ds : List Char) (rules : List (α × Regex)) :
    advanceAll (cs ++ ds) rules = advanceAll ds (advanceAll cs rules) := by
  induction cs generalizing rules with
  | nil => rfl
  | cons c cs ih => exact ih (advance c rules)

lemma firstMatch_advanceAll (cs ds : List Char) (rules : List (α × Regex)) :
    firstMatch (advanceAll cs rules) ds = firstMatch rules (cs ++ ds) := by
  induction cs generalizing rules with
  | nil => rfl
  | cons c cs ih => exact (ih (advance c rules)).trans (firstMatch_advance c (cs ++ ds))

lemma advanceAll_map_toLower (h : ∀ rule ∈ rules, rule.2.all ignoresCase = true)
    (cs : List Char) : advanceAll (cs.map Char.toLower) rules = advanceAll cs rules := by
  induction cs generalizing rules with
  | nil => rfl
  | cons c cs ih =>
    rw [List.map_cons, advanceAll, advance_toLower h]
    exact ih (all_advance h c)

/-- In whatever an expression matches, `x` can only be the first character. -/
def onlyFirst (x : Char) : Regex → Bool
  | .seq r s => r.onlyFirst x && s.all (fun p => !p x)
  | .alt r s => r.onlyFirst x && s.onlyFirst x
  | .star r => r.all fun p => !p x
  | _ => true

/-- In whatever an expression matches, `x` can only be the last character. -/
def onlyLast (x : Char) : Regex → Bool
  | .seq r s => r.all (fun p => !p x) && s.onlyLast x
  | .alt r s => r.onlyLast x && s.onlyLast x
  | .star r => r.all fun p => !p x
  | _ => true

variable {cs text before behind : List Char}

lemma Matches.before_eq_nil (h : r.Matches text) (hx : r.onlyFirst x = true)
    (he : text = before ++ x :: behind) : before = [] := by
  induction h generalizing before behind with
  | empty => cases List.append_eq_nil_iff.1 he.symm with | intro hnil _ => exact hnil
  | one => cases before with
    | nil => rfl
    | cons c cs => simp at he
  | @seq r s cs ds _ hds ih _ =>
    obtain ⟨hr, hs⟩ := Bool.and_eq_true_iff.1 hx
    rcases List.append_eq_append_iff.1 he with ⟨as, rfl, hds'⟩ | ⟨as, hcs, hbehind⟩
    · have hmem : x ∈ ds := by simp [hds']
      exact absurd hmem (hds.not_mem hs)
    · cases as with
      | nil =>
        rw [List.nil_append] at hbehind
        have hmem : x ∈ ds := by simp [← hbehind]
        exact absurd hmem (hds.not_mem hs)
      | cons a as =>
        cases hbehind
        exact ih hr hcs
  | left _ ih => exact ih (Bool.and_eq_true_iff.1 hx).1 he
  | right _ ih => exact ih (Bool.and_eq_true_iff.1 hx).2 he
  | done => cases List.append_eq_nil_iff.1 he.symm with | intro hnil _ => exact hnil
  | @more r cs ds hcs hds _ _ =>
    have hmem : x ∈ cs ++ ds := by simp [he]
    exact absurd hmem ((Matches.more hcs hds).not_mem hx)

lemma Matches.behind_eq_nil (h : r.Matches text) (hx : r.onlyLast x = true)
    (he : text = before ++ x :: behind) : behind = [] := by
  induction h generalizing before behind with
  | empty => simp at he
  | one => cases before with
    | nil => exact (List.cons.inj he).2.symm
    | cons c cs => simp at he
  | @seq r s cs ds hcs _ _ ih =>
    obtain ⟨hr, hs⟩ := Bool.and_eq_true_iff.1 hx
    rcases List.append_eq_append_iff.1 he with ⟨as, -, hds⟩ | ⟨as, hcs', hbehind⟩
    · exact ih hs hds
    · cases as with
      | nil =>
        have hds : ds = [] ++ x :: behind := hbehind.symm
        exact ih hs hds
      | cons a as =>
        cases hbehind
        have hmem : x ∈ cs := by simp [hcs']
        exact absurd hmem (hcs.not_mem hr)
  | left _ ih => exact ih (Bool.and_eq_true_iff.1 hx).1 he
  | right _ ih => exact ih (Bool.and_eq_true_iff.1 hx).2 he
  | done => simp at he
  | @more r cs ds hcs hds _ _ =>
    have hmem : x ∈ cs ++ ds := by simp [he]
    exact absurd hmem ((Matches.more hcs hds).not_mem hx)

end Regex

namespace Cursor

open Regex TokenKind

/-- What opens a comment or the message of `#error`, which run to the end of their line. -/
inductive Opening : TokenKind → List Char → Prop where
  | apostrophe : Opening .comment ['\'']
  | rem {word : List Char} {blank : Char} : word.map Char.toLower = "rem".toList →
      blank = ' ' ∨ blank = '\t' → Opening .comment (word ++ [blank])
  | error {word : List Char} : word.map Char.toLower = "#error".toList →
      Opening (.directive .error) word

/-- A text that starts with contents, which a quote opens too. -/
def Opens (text : List Char) : Prop :=
  (∃ cs, text = '"' :: cs) ∨ ∃ kind start, Opening kind start ∧ start <+: text

/-- The characters that openings are known by. -/
def marks : List Char :=
  ['"', '\'', ' ', '\t', '#']

/-- A text with marks at its ends only, so that nothing opens contents inside it. -/
def IsPlain (text : List Char) : Prop :=
  ∀ before x behind, text = before ++ x :: behind → x ∈ marks → before = [] ∨ behind = []

/-- A mark has no other case, and is in no word that opens contents but in front of it. -/
lemma marks_spec {x : Char} (hx : x ∈ marks) :
    x.toLower = x ∧ x ∉ "rem".toList ∧ x ∉ "error".toList := by
  simp only [marks, List.mem_cons, List.not_mem_nil, or_false] at hx
  rcases hx with rfl | rfl | rfl | rfl | rfl <;> decide

lemma mem_of_mem_marks {x : Char} (hx : x ∈ marks) {cs word : List Char}
    (hword : cs.map Char.toLower = word) (hmem : x ∈ cs) : x ∈ word := by
  rw [← hword, ← (marks_spec hx).1]
  exact List.mem_map_of_mem hmem

namespace Opening

variable {kind : TokenKind} {start : List Char}

/-- An opening is known by its mark. -/
lemma exists_mark (h : Opening kind start) : ∃ x ∈ marks, x ∈ start := by
  cases h with
  | apostrophe => exact ⟨'\'', by decide, .head _⟩
  | @rem word blank _ hblank =>
    refine ⟨blank, ?_, by simp⟩
    rcases hblank with rfl | rfl
    · decide
    · decide
  | error hword =>
    obtain ⟨x, rest, rfl, hx, -⟩ := List.map_eq_cons_iff.1 hword
    have hmark : x = '#' := (Ascii.toLower_eq_iff (.of_capitals (by decide +kernel)) x).1 hx
    exact ⟨x, hmark ▸ by decide, .head _⟩

/-- The mark of an opening stands at its end, or at its start. -/
lemma isPlain (h : Opening kind start) : IsPlain start := by
  intro before x behind he hx
  cases h with
  | apostrophe =>
    cases before with
    | nil => exact .inl rfl
    | cons b before => simp at he
  | @rem word blank hword _ =>
    rcases List.eq_nil_or_concat' behind with rfl | ⟨behind, last, rfl⟩
    · exact .inr rfl
    · rw [← List.cons_append, ← List.append_assoc] at he
      have hmem : x ∈ word := by simp [(List.append_inj' he rfl).1]
      exact absurd (mem_of_mem_marks hx hword hmem) (marks_spec hx).2.1
  | error hword =>
    cases before with
    | nil => exact .inl rfl
    | cons b before =>
      rw [he, List.cons_append, List.map_cons] at hword
      have hmem := mem_of_mem_marks hx (List.cons.inj hword).2 (by simp)
      exact absurd hmem (marks_spec hx).2.2

end Opening

/-- A pattern matches texts that start with contents, and plain texts. -/
theorem opens_or_isPlain {rule : TokenKind × Regex} (hrule : rule ∈ patterns) {text : List Char}
    (h : rule.2.Matches text) : Opens text ∨ IsPlain text := by
  cases hcontents : rule.1.hasContents with
  | false =>
    have hmarks : ∀ rule ∈ patterns, rule.1.hasContents = false →
        marks.all (fun x => rule.2.onlyFirst x || rule.2.onlyLast x) = true := by
      decide +kernel
    refine .inr fun before x behind he hx => ?_
    cases Bool.or_eq_true_iff.1 (List.all_eq_true.1 (hmarks rule hrule hcontents) x hx) with
    | inl hfirst => exact .inl (h.before_eq_nil hfirst he)
    | inr hlast => exact .inr (h.behind_eq_nil hlast he)
  | true =>
    have hfour : patterns.filter (fun rule => rule.1.hasContents) =
        [(.literal .string, Pattern.string),
         (.comment, .seq (char '\'') (.star Pattern.sameLine)),
         (.comment, .seq (word "rem".toList)
           (opt (.seq (.one [' ', '\t'].contains) (.star Pattern.sameLine)))),
         (.directive .error, .seq (word "#error".toList) (.star Pattern.sameLine))] := by
      rfl
    have hmem := List.mem_filter (p := fun rule => rule.1.hasContents).2 ⟨hrule, hcontents⟩
    rw [hfour] at hmem
    simp only [List.mem_cons, List.not_mem_nil, or_false] at hmem
    rcases hmem with rfl | rfl | rfl | rfl
    · obtain ⟨body, rfl, -⟩ := matches_string_iff.1 h
      exact .inl (.inl ⟨_, rfl⟩)
    · obtain ⟨body, rfl, -⟩ := matches_seq_char_iff.1 h
      exact .inl (.inr ⟨_, _, .apostrophe, body, rfl⟩)
    · obtain ⟨start, rest, rfl, hstart, hrest⟩ := matches_seq_iff.1 h
      have hword := matches_word_iff.1 hstart
      cases matches_alt_iff.1 hrest with
      | inl hblank =>
        obtain ⟨first, body, rfl, hfirst, -⟩ := matches_seq_iff.1 hblank
        obtain ⟨blank, rfl, hb⟩ := matches_one_iff.1 hfirst
        have hopening : Opening .comment (start ++ [blank]) := .rem hword (by simpa using hb)
        exact .inl (.inr ⟨_, _, hopening, body, List.append_assoc _ _ _⟩)
      | inr hempty =>
        -- The word `rem` alone is a comment without contents.
        cases matches_empty_iff.1 hempty
        rw [List.append_nil]
        refine .inr fun before x behind he hx => ?_
        exact absurd (mem_of_mem_marks hx hword (by simp [he])) (marks_spec hx).2.1
    · obtain ⟨start, body, rfl, hstart, -⟩ := matches_seq_iff.1 h
      have hopening : Opening (.directive .error) start := .error (matches_word_iff.1 hstart)
      exact .inl (.inr ⟨_, _, hopening, body, rfl⟩)

lemma matches_sameLine_iff {cs : List Char} :
    (Regex.star Pattern.sameLine).Matches cs ↔ ∀ c ∈ cs, onLine c = true := by
  constructor
  · intro h c hc
    by_contra hline
    have hend : (Regex.star Pattern.sameLine).all (fun p => !p c) = true := by
      show (!onLine c) = true
      rw [Bool.eq_false_iff.2 hline]
      rfl
    exact h.not_mem hend hc
  · intro h
    induction cs with
    | nil => exact .done
    | cons c cs ih =>
      obtain ⟨hc, hcs⟩ := List.forall_mem_cons.1 h
      exact .more (.one hc) (ih hcs)

/-- A start of the text that stays on the line is no longer than the line. -/
lemma take_onLine {text : List Char} {n : Nat} (h : ∀ c ∈ text.take n, onLine c = true)
    (hn : n ≤ text.length) : n ≤ (text.takeWhile onLine).length := by
  have hsplit : (text.take n ++ text.drop n).takeWhile onLine =
      text.take n ++ (text.drop n).takeWhile onLine := List.takeWhile_append_of_pos h
  rw [List.take_append_drop] at hsplit
  rw [hsplit, List.length_append, List.length_take_of_le hn]
  exact Nat.le_add_right _ _

namespace Opening

variable {kind kind' : TokenKind} {start body behind text piece : List Char}

/-- Behind an opening only the rest of the line is left to match. -/
lemma advanceAll_patterns (h : Opening kind start) :
    advanceAll start patterns = [(kind, .star Pattern.sameLine)] := by
  cases h with
  | apostrophe => rfl
  | @rem word blank hword hblank =>
    rw [advanceAll_append, ← advanceAll_map_toLower ignoresCase_patterns, hword]
    rcases hblank with rfl | rfl
    · rfl
    · rfl
  | error hword =>
    rw [← advanceAll_map_toLower ignoresCase_patterns, hword]
    rfl

lemma firstMatch_eq (h : Opening kind start) (body : List Char) :
    firstMatch patterns (start ++ body) =
      if (Regex.star Pattern.sameLine).accepts body then some kind else none := by
  rw [← firstMatch_advanceAll, h.advanceAll_patterns, firstMatch_singleton]

lemma head?_ne (h : Opening kind start) (text : List Char) :
    (start ++ text).head? ≠ some '"' := by
  cases h with
  | apostrophe => simp
  | rem hword =>
    obtain ⟨r, rest, rfl, hr, -⟩ := List.map_eq_cons_iff.1 hword
    intro hquote
    cases hquote
    revert hr
    decide
  | error hword =>
    obtain ⟨x, rest, rfl, hx, -⟩ := List.map_eq_cons_iff.1 hword
    intro hquote
    cases hquote
    revert hx
    decide

/-- Behind an opening, the rest of the line is the token. -/
lemma isToken (h : Opening kind start) (text : List Char) :
    IsToken (start ++ text) kind (start ++ text.takeWhile onLine) := by
  have htake : (start ++ text).take (start ++ text.takeWhile onLine).length =
      start ++ text.takeWhile onLine := by
    have hsplit : start ++ text = (start ++ text.takeWhile onLine) ++ text.dropWhile onLine := by
      rw [List.append_assoc, List.takeWhile_append_dropWhile]
    rw [hsplit, List.take_left]
  have hreaches : Reaches patterns (start ++ text) kind
      (start ++ text.takeWhile onLine).length := by
    constructor
    · simpa using (List.takeWhile_prefix onLine).length_le
    · rw [htake, h.firstMatch_eq, if_pos]
      exact accepts_iff.2 (matches_sameLine_iff.2 fun c hc => List.mem_takeWhile_imp hc)
    · intro m hm hle
      rw [List.length_append] at hm hle
      have hbeyond : (start ++ text).take m = start ++ text.take (m - start.length) := by
        rw [List.take_append, List.take_of_length_le (by omega)]
      rw [hbeyond, h.firstMatch_eq, if_neg]
      intro haccepts
      have hline := matches_sameLine_iff.1 (accepts_iff.1 haccepts)
      have hlength := take_onLine hline (by omega)
      omega
  have htoken := isToken_of_reaches hreaches fun cs hcs => by
    have hhead := h.head?_ne text
    rw [hcs] at hhead
    exact absurd rfl hhead
  rwa [htake] at htoken

/-- A token that starts with an opening is the rest of the line. -/
lemma of_isToken (h : Opening kind start) (ht : IsToken (start ++ text) kind' piece) :
    kind' = kind ∧ piece = start ++ text.takeWhile onLine :=
  ht.unique (h.isToken text)

/-- In particular it has no line end, and nothing but a line end follows it. -/
lemma line_of_isToken (h : Opening kind start)
    (ht : IsToken (start ++ body ++ behind) kind' (start ++ body)) :
    kind' = kind ∧ (∀ c ∈ body, onLine c = true) ∧ ∀ c ∈ behind.head?, onLine c = false := by
  rw [List.append_assoc] at ht
  obtain ⟨hkind, hpiece⟩ := h.of_isToken ht
  have hbody : body = (body ++ behind).takeWhile onLine := List.append_cancel_left hpiece
  have hline : ∀ c ∈ body, onLine c = true := by
    intro c hc
    rw [hbody] at hc
    exact List.mem_takeWhile_imp hc
  refine ⟨hkind, hline, ?_⟩
  rw [List.takeWhile_append_of_pos hline, List.self_eq_append_right] at hbody
  cases behind with
  | nil => exact nofun
  | cons c behind =>
    intro d hd
    cases hd
    rw [List.takeWhile_cons] at hbody
    split at hbody
    case isTrue => cases hbody
    case isFalse hc => exact Bool.eq_false_iff.2 hc

lemma isToken_line (h : Opening kind start) (hbody : ∀ c ∈ body, onLine c = true)
    (hhead : ∀ c ∈ behind.head?, onLine c = false) :
    IsToken (start ++ body ++ behind) kind (start ++ body) := by
  have hnone : behind.takeWhile onLine = [] := by
    cases behind with
    | nil => rfl
    | cons c behind => rw [List.takeWhile_cons, hhead c rfl, if_neg Bool.false_ne_true]
  have htoken := h.isToken (body ++ behind)
  rwa [List.takeWhile_append_of_pos hbody, hnone, List.append_nil, ← List.append_assoc] at htoken

end Opening

section String

variable {kind : TokenKind} {body behind piece cs : List Char}

lemma isToken_string (hbody : StringBody body) (hhead : behind.head? ≠ some '"') :
    IsToken ('"' :: (body ++ ['"']) ++ behind) (.literal .string) ('"' :: (body ++ ['"'])) := by
  have hcloses : Closes (body ++ '"' :: behind) body behind := ⟨rfl, hbody, hhead⟩
  have htoken := isToken_of_reaches (reaches_of_closes hcloses) fun cs hcs => by
    cases hcs
    exact ⟨body, behind, hcloses⟩
  have htext : '"' :: (body ++ '"' :: behind) = '"' :: (body ++ ['"']) ++ behind := by simp
  rw [htext] at htoken
  rwa [List.take_left' (by simp)] at htoken

/-- A token that starts with a quote is a string, which no other quote follows. -/
lemma string_of_isToken (h : IsToken (piece ++ behind) kind piece) (hquote : piece = '"' :: cs) :
    ∃ body, kind = .literal .string ∧ piece = '"' :: (body ++ ['"']) ∧ StringBody body ∧
      behind.head? ≠ some '"' := by
  obtain ⟨body, rest, heq, hbody, hhead⟩ := h.closed (cs ++ behind) (by rw [hquote]; rfl)
  have htext : piece ++ behind = '"' :: (body ++ ['"']) ++ rest := by
    rw [hquote, List.cons_append, heq]
    simp
  rw [htext] at h
  obtain ⟨hkind, hpiece⟩ := h.unique (isToken_string hbody hhead)
  rw [hpiece] at htext
  cases List.append_cancel_left htext
  exact ⟨body, hkind, hpiece, hbody, hhead⟩

lemma StringBody.onLine (h : StringBody body) : ∀ c ∈ body, onLine c = true := by
  induction h with
  | nil => exact nofun
  | plain _ hline _ ih => exact List.forall_mem_cons.2 ⟨hline, ih⟩
  | quote _ ih =>
    have hquote : Cursor.onLine '"' = true := by decide
    exact List.forall_mem_cons.2 ⟨hquote, List.forall_mem_cons.2 ⟨hquote, ih⟩⟩

lemma StringBody.of_forall (h : ∀ c ∈ body, c ≠ '"' ∧ Cursor.onLine c = true) :
    StringBody body := by
  induction body with
  | nil => exact .nil
  | cons c body ih =>
    obtain ⟨hc, hbody⟩ := List.forall_mem_cons.1 h
    exact .plain hc.1 hc.2 (ih hbody)

end String

end Cursor

end BrighterCheck
