/-!
# Regular expressions

Regular expressions over characters, what it means for one to match a text, and their derivatives.
`longest` reads a list of rules side by side and finds the longest match; among the rules that
match that far the first one wins. `matches_deriv` says that the derivative by a character matches
what a match leaves behind that character, and `nullable_iff` when nothing has to be left.
-/

namespace BrighterCheck

/-- Regular expressions whose smallest parts are classes of characters. -/
inductive Regex where
  | nothing
  | empty
  | one (accepts : Char → Bool)
  | seq (first second : Regex)
  | alt (left right : Regex)
  | star (body : Regex)

namespace Regex

/-- The texts that a regular expression matches. -/
inductive Matches : Regex → List Char → Prop where
  | empty : Matches .empty []
  | one {p c} : p c = true → Matches (.one p) [c]
  | seq {r s cs ds} : Matches r cs → Matches s ds → Matches (.seq r s) (cs ++ ds)
  | left {r s cs} : Matches r cs → Matches (.alt r s) cs
  | right {r s cs} : Matches s cs → Matches (.alt r s) cs
  | done {r} : Matches (.star r) []
  | more {r cs ds} : Matches r cs → Matches (.star r) ds → Matches (.star r) (cs ++ ds)

theorem not_matches_nothing {cs : List Char} : ¬ Matches .nothing cs :=
  nofun

theorem matches_empty_iff {cs : List Char} : Matches .empty cs ↔ cs = [] :=
  ⟨fun h => by cases h; rfl, fun h => h ▸ .empty⟩

theorem matches_seq_iff {r s : Regex} {cs : List Char} :
    Matches (.seq r s) cs ↔ ∃ ds es, cs = ds ++ es ∧ r.Matches ds ∧ s.Matches es :=
  ⟨fun h => by cases h with | seq h h' => exact ⟨_, _, rfl, h, h'⟩,
    fun ⟨_, _, e, h, h'⟩ => e ▸ .seq h h'⟩

theorem matches_alt_iff {r s : Regex} {cs : List Char} :
    Matches (.alt r s) cs ↔ r.Matches cs ∨ s.Matches cs :=
  ⟨fun h => by
    cases h with
    | left h => exact .inl h
    | right h => exact .inr h,
  fun h => h.elim .left .right⟩

/-- A given character. -/
def char (c : Char) : Regex :=
  .one (· == c)

/-- A given text. -/
def text : List Char → Regex
  | [] => .empty
  | [c] => char c
  | c :: cs => .seq (char c) (text cs)

/-- A given letter in either case. -/
def letter (c : Char) : Regex :=
  .one fun d => d.toLower == c.toLower

/-- A given text in any letter case. -/
def word : List Char → Regex
  | [] => .empty
  | [c] => letter c
  | c :: cs => .seq (letter c) (word cs)

/-- One or more repetitions. -/
def plus (r : Regex) : Regex :=
  .seq r (.star r)

/-- At most one repetition. -/
def opt (r : Regex) : Regex :=
  .alt r .empty

/-- Several expressions one after the other. -/
def sequence : List Regex → Regex
  | [] => .empty
  | [r] => r
  | r :: rs => .seq r (sequence rs)

/-- Whether the empty text is matched. -/
def nullable : Regex → Bool
  | .nothing => false
  | .empty => true
  | .one _ => false
  | .seq r s => r.nullable && s.nullable
  | .alt r s => r.nullable || s.nullable
  | .star _ => true

/-- An expression is nullable exactly if it matches the empty text. -/
theorem nullable_iff {r : Regex} : r.nullable = true ↔ r.Matches [] := by
  induction r with
  | nothing => simp [nullable]; intro h; cases h
  | empty => exact ⟨fun _ => .empty, fun _ => rfl⟩
  | one p => simp [nullable]; intro h; cases h
  | seq r s ihr ihs =>
    simp only [nullable, Bool.and_eq_true, ihr, ihs]
    constructor
    · rintro ⟨h, h'⟩
      exact .seq h h'
    · generalize e : ([] : List Char) = cs
      intro h
      cases h with
      | seq h h' =>
        obtain ⟨rfl, rfl⟩ := List.append_eq_nil_iff.1 e.symm
        exact ⟨h, h'⟩
  | alt r s ihr ihs =>
    simp only [nullable, Bool.or_eq_true, ihr, ihs]
    constructor
    · rintro (h | h)
      · exact .left h
      · exact .right h
    · intro h
      cases h with
      | left h => exact .inl h
      | right h => exact .inr h
  | star r _ => exact ⟨fun _ => .done, fun _ => rfl⟩

/-- A sequence, without parts that are known to match nothing or only the empty text. -/
def join : Regex → Regex → Regex
  | .nothing, _ => .nothing
  | .empty, s => s
  | r, s => .seq r s

theorem matches_join {r s : Regex} {cs : List Char} :
    (join r s).Matches cs ↔ Matches (.seq r s) cs := by
  unfold join
  split
  · rw [matches_seq_iff]
    constructor
    · intro h
      exact (not_matches_nothing h).elim
    · rintro ⟨_, _, _, h, _⟩
      exact (not_matches_nothing h).elim
  · rw [matches_seq_iff]
    constructor
    · intro h
      exact ⟨[], cs, rfl, .empty, h⟩
    · rintro ⟨ds, es, rfl, h, h'⟩
      rw [matches_empty_iff.1 h]
      exact h'
  · rfl

/-- A choice, without parts that are known to match nothing. -/
def choose : Regex → Regex → Regex
  | .nothing, s => s
  | r, .nothing => r
  | r, s => .alt r s

theorem matches_choose {r s : Regex} {cs : List Char} :
    (choose r s).Matches cs ↔ r.Matches cs ∨ s.Matches cs := by
  unfold choose
  split
  · simp [not_matches_nothing]
  · simp [not_matches_nothing]
  · exact matches_alt_iff

/-- What is left to match after the character `c`. -/
def deriv (c : Char) : Regex → Regex
  | .nothing => .nothing
  | .empty => .nothing
  | .one p => if p c then .empty else .nothing
  | .seq r s =>
    if r.nullable then choose (join (r.deriv c) s) (s.deriv c) else join (r.deriv c) s
  | .alt r s => choose (r.deriv c) (s.deriv c)
  | .star r => join (r.deriv c) (.star r)

/-- A repetition that matches a character starts with a match of its body. -/
theorem matches_star_cons {r : Regex} {c : Char} {cs : List Char}
    (h : Matches (.star r) (c :: cs)) :
    ∃ ds es, cs = ds ++ es ∧ r.Matches (c :: ds) ∧ Matches (.star r) es := by
  generalize e : Regex.star r = t at h
  generalize e' : c :: cs = ds at h
  induction h with
  | @more r' xs ys h h' _ ih =>
    cases e
    cases xs with
    | nil => exact ih rfl e'
    | cons x xs =>
      cases e'
      exact ⟨xs, ys, rfl, h, h'⟩
  | done => cases e'
  | _ => cases e

/-- The derivative matches what is left of a match after its first character. -/
theorem matches_deriv {r : Regex} {c : Char} {cs : List Char} :
    (r.deriv c).Matches cs ↔ r.Matches (c :: cs) := by
  induction r generalizing cs with
  | nothing => exact ⟨nofun, nofun⟩
  | empty => exact ⟨nofun, nofun⟩
  | one p =>
    unfold deriv
    split
    · rename_i h
      constructor
      · intro h'
        rw [matches_empty_iff.1 h']
        exact .one h
      · intro h'
        cases h'
        exact .empty
    · rename_i h
      constructor
      · exact fun h' => (not_matches_nothing h').elim
      · intro h'
        cases h'
        contradiction
  | seq r s ihr ihs =>
    have key : Matches (.seq (r.deriv c) s) cs ↔
        ∃ ds es, cs = ds ++ es ∧ r.Matches (c :: ds) ∧ s.Matches es := by
      simp only [matches_seq_iff, ihr]
    unfold deriv
    split
    · rename_i h
      rw [matches_choose, matches_join, key, ihs, matches_seq_iff]
      constructor
      · rintro (⟨ds, es, rfl, h', h''⟩ | h')
        · exact ⟨c :: ds, es, rfl, h', h''⟩
        · exact ⟨[], c :: cs, rfl, nullable_iff.1 h, h'⟩
      · rintro ⟨ds, es, e, h', h''⟩
        cases ds with
        | nil => exact .inr (e ▸ h'')
        | cons d ds =>
          cases e
          exact .inl ⟨ds, es, rfl, h', h''⟩
    · rename_i h
      rw [matches_join, key, matches_seq_iff]
      constructor
      · rintro ⟨ds, es, rfl, h', h''⟩
        exact ⟨c :: ds, es, rfl, h', h''⟩
      · rintro ⟨ds, es, e, h', h''⟩
        cases ds with
        | nil => exact absurd (nullable_iff.2 h') h
        | cons d ds =>
          cases e
          exact ⟨ds, es, rfl, h', h''⟩
  | alt r s ihr ihs =>
    rw [deriv, matches_choose, ihr, ihs, matches_alt_iff]
  | star r ih =>
    rw [deriv, matches_join, matches_seq_iff]
    constructor
    · rintro ⟨ds, es, rfl, h, h'⟩
      exact .more (ih.1 h) h'
    · intro h
      obtain ⟨ds, es, rfl, h, h'⟩ := matches_star_cons h
      exact ⟨ds, es, rfl, ih.2 h, h'⟩

/-- Whether an expression is the one that visibly matches nothing. -/
def isNothing : Regex → Bool
  | .nothing => true
  | _ => false

/-- The first of the rules that matches the empty text. -/
def accepting {α : Type} (rules : List (α × Regex)) : Option α :=
  (rules.find? fun rule => rule.2.nullable).map (·.1)

/-- The rules that can go on after the character `c`, with what is left of them. -/
def advance {α : Type} (c : Char) (rules : List (α × Regex)) : List (α × Regex) :=
  (rules.map fun rule => (rule.1, rule.2.deriv c)).filter fun rule => !rule.2.isNothing

/-- The length of the longest prefix that some rule matches, with the first rule that matches it. -/
def longest {α : Type} (rules : List (α × Regex)) : List Char → Option (α × Nat)
  | [] => (accepting rules).map (·, 0)
  | c :: cs =>
    match advance c rules with
    | [] => (accepting rules).map (·, 0)
    | rule :: live =>
      match longest (rule :: live) cs with
      | some (a, n) => some (a, n + 1)
      | none => (accepting rules).map (·, 0)

end Regex

end BrighterCheck
