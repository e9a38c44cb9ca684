import BrighterCheck.Proofs.Lexer.Pattern

/-!
# The longest match

The answer of `longest` is the longest prefix that some rule matches, together with the first rule
that matches it. There is no answer only where no prefix is matched at all.
-/

namespace BrighterCheck.Regex

variable {α : Type} {rules : List (α × Regex)} {r : Regex} {c : Char} {cs : List Char} {a : α}

/-- Whether an expression matches a text, by derivatives. -/
def accepts (r : Regex) (cs : List Char) : Bool :=
  (cs.foldl (fun r c => r.deriv c) r).nullable

lemma accepts_iff : r.accepts cs = true ↔ r.Matches cs := by
  induction cs generalizing r with
  | nil => exact nullable_iff
  | cons c cs ih =>
    rw [← matches_deriv]
    exact ih

/-- A character outside all classes of an expression stands in no text that it matches. -/
lemma Matches.not_mem {x : Char} (h : r.Matches cs) (hx : r.all (fun p => !p x) = true) :
    x ∉ cs := by
  induction h with
  | empty => exact List.not_mem_nil
  | one hp =>
    intro hmem
    cases List.mem_singleton.1 hmem
    simp [all, hp] at hx
  | seq _ _ ih ih' =>
    obtain ⟨hr, hs⟩ := Bool.and_eq_true_iff.1 hx
    intro hmem
    cases List.mem_append.1 hmem with
    | inl hmem => exact ih hr hmem
    | inr hmem => exact ih' hs hmem
  | left _ ih => exact ih (Bool.and_eq_true_iff.1 hx).1
  | right _ ih => exact ih (Bool.and_eq_true_iff.1 hx).2
  | done => exact List.not_mem_nil
  | more _ _ ih ih' =>
    intro hmem
    cases List.mem_append.1 hmem with
    | inl hmem => exact ih hx hmem
    | inr hmem => exact ih' hx hmem

/-- A match starts with a character that the expression has a derivative by. -/
lemma Matches.isNothing_deriv (h : r.Matches (c :: cs)) : (r.deriv c).isNothing = false := by
  cases hd : r.deriv c with
  | nothing =>
    have hrest := matches_deriv.2 h
    rw [hd] at hrest
    exact (not_matches_nothing hrest).elim
  | _ => rfl

/-- The first of the rules that matches a text. -/
def firstMatch (rules : List (α × Regex)) (cs : List Char) : Option α :=
  (rules.find? fun rule => rule.2.accepts cs).map Prod.fst

lemma firstMatch_eq_none_iff :
    firstMatch rules cs = none ↔ ∀ rule ∈ rules, ¬ rule.2.Matches cs := by
  simp only [firstMatch, Option.map_eq_none_iff, List.find?_eq_none, accepts_iff]

lemma firstMatch_eq_some_iff :
    firstMatch rules cs = some a ↔ ∃ before r after, rules = before ++ (a, r) :: after ∧
      r.Matches cs ∧ ∀ rule ∈ before, ¬ rule.2.Matches cs := by
  simp only [firstMatch, Option.map_eq_some_iff, List.find?_eq_some_iff_append, accepts_iff,
    Bool.not_eq_true', ← Bool.not_eq_true]
  constructor
  · intro h
    obtain ⟨⟨b, r⟩, ⟨hr, before, after, hrules, hbefore⟩, rfl⟩ := h
    exact ⟨before, r, after, hrules, hr, hbefore⟩
  · intro h
    obtain ⟨before, r, after, hrules, hr, hbefore⟩ := h
    exact ⟨(a, r), ⟨hr, before, after, hrules, hbefore⟩, rfl⟩

lemma firstMatch_append (rules' : List (α × Regex)) (cs : List Char) :
    firstMatch (rules ++ rules') cs = (firstMatch rules cs).or (firstMatch rules' cs) := by
  rw [firstMatch, List.find?_append, Option.map_or]
  rfl

lemma firstMatch_singleton (rule : α × Regex) (cs : List Char) :
    firstMatch [rule] cs = if rule.2.accepts cs then some rule.1 else none := by
  rw [firstMatch, List.find?_singleton]
  split
  case isTrue => rfl
  case isFalse => rfl

/-- A rule that can go on after a character goes on as its derivative. -/
lemma firstMatch_advance (c : Char) (cs : List Char) :
    firstMatch (advance c rules) cs = firstMatch rules (c :: cs) := by
  induction rules with
  | nil => rfl
  | cons rule rules ih =>
    have hsplit : advance c (rule :: rules) =
        advance c [rule] ++ advance c rules := advance_append c [rule] rules
    have hhead : firstMatch (advance c [rule]) cs = firstMatch [rule] (c :: cs) := by
      cases hd : (rule.2.deriv c).isNothing with
      | true =>
        have hnone : advance c [rule] = [] := by simp [advance, hd]
        rw [hnone]
        refine (firstMatch_eq_none_iff.2 ?_).symm
        intro rule' hrule hmatch
        cases List.mem_singleton.1 hrule
        rw [hmatch.isNothing_deriv] at hd
        cases hd
      | false =>
        have hsome : advance c [rule] = [(rule.1, rule.2.deriv c)] := by simp [advance, hd]
        rw [hsome, firstMatch_singleton, firstMatch_singleton]
        rfl
    rw [hsplit, firstMatch_append, hhead, ih, ← firstMatch_append]
    rfl

/-- Where nothing is found, no prefix is matched. -/
lemma firstMatch_of_longest_eq_none (h : longest rules cs = none) (m : Nat) :
    firstMatch rules (cs.take m) = none := by
  induction cs generalizing rules m with
  | nil =>
    rw [List.take_nil]
    exact Option.map_eq_none_iff.1 h
  | cons c cs ih =>
    by_cases hnil : advance c rules = []
    · rw [longest_of_advance_eq_nil hnil] at h
      cases m with
      | zero => exact Option.map_eq_none_iff.1 h
      | succ m =>
        rw [List.take_succ_cons, ← firstMatch_advance, hnil]
        rfl
    · rw [longest_of_advance_eq rfl hnil, Option.or_eq_none_iff] at h
      obtain ⟨hlive, haccepting⟩ := h
      cases m with
      | zero => exact Option.map_eq_none_iff.1 haccepting
      | succ m =>
        rw [List.take_succ_cons, ← firstMatch_advance]
        exact ih (Option.map_eq_none_iff.1 hlive) m

/-- The first `n` characters are the longest prefix that is matched, first by the rule `a`. -/
structure Reaches (rules : List (α × Regex)) (cs : List Char) (a : α) (n : Nat) : Prop where
  le_length : n ≤ cs.length
  firstMatch_eq : firstMatch rules (cs.take n) = some a
  firstMatch_longer : ∀ m, n < m → m ≤ cs.length → firstMatch rules (cs.take m) = none

/-- Rules that cannot go on reach no further than where they stand. -/
lemma reaches_zero (h : accepting rules = some a)
    (hlive : ∀ m, firstMatch (advance c rules) (cs.take m) = none) :
    Reaches rules (c :: cs) a 0 where
  le_length := Nat.zero_le _
  firstMatch_eq := h
  firstMatch_longer m hm _ := by
    obtain ⟨m, rfl⟩ := Nat.exists_eq_succ_of_ne_zero (Nat.ne_zero_of_lt hm)
    rw [List.take_succ_cons, ← firstMatch_advance]
    exact hlive m

lemma reaches_succ {n : Nat} (h : Reaches (advance c rules) cs a n) :
    Reaches rules (c :: cs) a (n + 1) where
  le_length := Nat.succ_le_succ h.le_length
  firstMatch_eq := by
    rw [List.take_succ_cons, ← firstMatch_advance]
    exact h.firstMatch_eq
  firstMatch_longer m hm hle := by
    obtain ⟨m, rfl⟩ := Nat.exists_eq_succ_of_ne_zero (Nat.ne_zero_of_lt hm)
    rw [List.take_succ_cons, ← firstMatch_advance]
    exact h.firstMatch_longer m (Nat.lt_of_succ_lt_succ hm) (Nat.le_of_succ_le_succ hle)

lemma exists_of_map_zero {o : Option α} {n : Nat} (h : o.map (·, 0) = some (a, n)) :
    o = some a ∧ n = 0 := by
  obtain ⟨b, hb, he⟩ := Option.map_eq_some_iff.1 h
  cases he
  exact ⟨hb, rfl⟩

/-- What is found is the longest prefix that is matched. -/
theorem reaches_of_longest {n : Nat} (h : longest rules cs = some (a, n)) :
    Reaches rules cs a n := by
  induction cs generalizing rules a n with
  | nil =>
    obtain ⟨ha, rfl⟩ := exists_of_map_zero h
    exact ⟨Nat.le_refl 0, ha, fun m hm hle => absurd hm (Nat.not_lt.2 hle)⟩
  | cons c cs ih =>
    by_cases hnil : advance c rules = []
    · rw [longest_of_advance_eq_nil hnil] at h
      obtain ⟨ha, rfl⟩ := exists_of_map_zero h
      apply reaches_zero ha
      rw [hnil]
      exact fun _ => rfl
    · rw [longest_of_advance_eq rfl hnil, Option.or_eq_some_iff] at h
      cases h with
      | inl h =>
        obtain ⟨⟨b, k⟩, hlive, he⟩ := Option.map_eq_some_iff.1 h
        cases he
        exact reaches_succ (ih hlive)
      | inr h =>
        -- The rules went on, but what is left of them matches nothing further.
        obtain ⟨hnone, h⟩ := h
        obtain ⟨ha, rfl⟩ := exists_of_map_zero h
        exact reaches_zero ha
          (firstMatch_of_longest_eq_none (Option.map_eq_none_iff.1 hnone))

lemma Reaches.not_matches {n : Nat} (h : Reaches rules cs a n) {longer : List Char}
    (hfront : longer <+: cs) (hlt : n < longer.length) :
    ∀ rule ∈ rules, ¬ rule.2.Matches longer := by
  apply firstMatch_eq_none_iff.1
  rw [List.prefix_iff_eq_take.1 hfront]
  exact h.firstMatch_longer _ hlt hfront.length_le

end BrighterCheck.Regex
