import BrighterCheck.Lexer.Pattern
import Mathlib.Tactic.Lemma

/-!
# Classes of characters in patterns

What holds of all classes in an expression holds of what is left of it behind some character.
-/

namespace BrighterCheck.Regex

variable {α : Type}

/-- Whether all classes of characters in an expression satisfy `q`. -/
def all (q : (Char → Bool) → Bool) : Regex → Bool
  | .nothing | .empty => true
  | .one p => q p
  | .seq r s | .alt r s => r.all q && s.all q
  | .star r => r.all q

variable {q : (Char → Bool) → Bool} {r s : Regex} {rules : List (α × Regex)}

lemma all_join (hr : r.all q = true) (hs : s.all q = true) : (join r s).all q = true := by
  unfold join
  split
  · rfl
  · exact hs
  · exact Bool.and_eq_true_iff.2 ⟨hr, hs⟩

lemma all_choose (hr : r.all q = true) (hs : s.all q = true) : (choose r s).all q = true := by
  unfold choose
  split
  · exact hs
  · exact hr
  · exact Bool.and_eq_true_iff.2 ⟨hr, hs⟩

lemma all_deriv (h : r.all q = true) (c : Char) : (r.deriv c).all q = true := by
  induction r with
  | nothing => rfl
  | empty => rfl
  | one p =>
    unfold deriv
    split
    · rfl
    · rfl
  | seq r s ihr ihs =>
    obtain ⟨hr, hs⟩ := Bool.and_eq_true_iff.1 h
    have hjoin := all_join (ihr hr) hs
    unfold deriv
    split
    · exact all_choose hjoin (ihs hs)
    · exact hjoin
  | alt r s ihr ihs =>
    obtain ⟨hr, hs⟩ := Bool.and_eq_true_iff.1 h
    exact all_choose (ihr hr) (ihs hs)
  | star r ih => exact all_join (ih h) h

lemma all_advance (h : ∀ rule ∈ rules, rule.2.all q = true) (c : Char) :
    ∀ rule ∈ advance c rules, rule.2.all q = true := by
  intro rule hrule
  simp only [advance, List.mem_filter, List.mem_map] at hrule
  obtain ⟨⟨rule', hrule', rfl⟩, -⟩ := hrule
  exact all_deriv (h rule' hrule') c

lemma all_word (hq : ∀ c : Char, q (fun d => d.toLower == c.toLower) = true) (cs : List Char) :
    (word cs).all q = true := by
  induction cs with
  | nil => rfl
  | cons c cs ih =>
    cases cs with
    | nil => exact hq c
    | cons d ds => exact Bool.and_eq_true_iff.2 ⟨hq c, ih⟩

lemma longest_of_advance_eq_nil {c : Char} (h : advance c rules = []) (cs : List Char) :
    longest rules (c :: cs) = (accepting rules).map (·, 0) := by
  unfold longest
  simp only [h]

lemma longest_of_advance_eq {c : Char} {live : List (α × Regex)} (h : advance c rules = live)
    (hne : live ≠ []) (cs : List Char) :
    longest rules (c :: cs) = ((longest live cs).map fun (a, n) => (a, n + 1)).or
      ((accepting rules).map (·, 0)) := by
  subst h
  obtain ⟨rule, live, hlive⟩ := List.exists_cons_of_ne_nil hne
  rw [longest, hlive]
  dsimp only
  cases longest (rule :: live) cs <;> rfl

/-- Whatever is found is one of the rules, and no longer than the text. -/
lemma of_longest {cs : List Char} {a : α} {n : Nat} (h : longest rules cs = some (a, n)) :
    a ∈ rules.map Prod.fst ∧ n ≤ cs.length := by
  have haccept {rules : List (α × Regex)} {cs : List Char} {a : α} {n : Nat}
      (h : (accepting rules).map (·, 0) = some (a, n)) :
      a ∈ rules.map Prod.fst ∧ n ≤ cs.length := by
    simp only [accepting, Option.map_map, Option.map_eq_some_iff] at h
    obtain ⟨rule, hrule, he⟩ := h
    cases he
    exact ⟨List.mem_map_of_mem (List.mem_of_find?_eq_some hrule), Nat.zero_le _⟩
  induction cs generalizing rules a n with
  | nil => exact haccept h
  | cons c cs ih =>
    by_cases hnil : advance c rules = []
    · rw [longest_of_advance_eq_nil hnil] at h
      exact haccept h
    · rw [longest_of_advance_eq rfl hnil, Option.or_eq_some_iff] at h
      rcases h with h | ⟨-, h⟩
      · obtain ⟨⟨b, m⟩, hm, he⟩ := Option.map_eq_some_iff.1 h
        cases he
        obtain ⟨hb, hle⟩ := ih hm
        refine ⟨?_, Nat.succ_le_succ hle⟩
        simp only [advance, List.mem_map, List.mem_filter] at hb
        obtain ⟨_, ⟨⟨rule, hrule, rfl⟩, -⟩, rfl⟩ := hb
        exact List.mem_map.2 ⟨rule, hrule, rfl⟩
      · exact haccept h

/-- A class without the characters that end a line. -/
def staysOnLine (p : Char → Bool) : Bool :=
  !p '\r' && !p '\n'

/-- Nothing goes on behind the end of a line. -/
lemma deriv_of_staysOnLine (h : r.all staysOnLine = true) {c : Char} (hc : c = '\r' ∨ c = '\n') :
    r.deriv c = .nothing := by
  induction r with
  | nothing => rfl
  | empty => rfl
  | one p =>
    obtain ⟨hreturn, hfeed⟩ := Bool.and_eq_true_iff.1 h
    rcases hc with rfl | rfl
    · exact if_neg (by simpa using hreturn)
    · exact if_neg (by simpa using hfeed)
  | seq r s ihr ihs =>
    obtain ⟨hr, hs⟩ := Bool.and_eq_true_iff.1 h
    simp only [deriv, ihr hr, ihs hs, join, choose, ite_self]
  | alt r s ihr ihs =>
    obtain ⟨hr, hs⟩ := Bool.and_eq_true_iff.1 h
    simp only [deriv, ihr hr, ihs hs, choose]
  | star r ih => simp only [deriv, ih h, join]

lemma advance_of_staysOnLine (h : ∀ rule ∈ rules, rule.2.all staysOnLine = true) {c : Char}
    (hc : c = '\r' ∨ c = '\n') : advance c rules = [] := by
  apply List.filter_eq_nil_iff.2
  intro rule hrule
  obtain ⟨rule', hrule', rfl⟩ := List.mem_map.1 hrule
  simp [deriv_of_staysOnLine (h rule' hrule') hc, isNothing]

/-- Rules that stay on their line do not see what stands behind it. -/
lemma longest_append (h : ∀ rule ∈ rules, rule.2.all staysOnLine = true) {b : Char}
    (hb : b = '\r' ∨ b = '\n') (cs ds : List Char) :
    longest rules (cs ++ b :: ds) = longest rules cs := by
  induction cs generalizing rules with
  | nil =>
    exact longest_of_advance_eq_nil (advance_of_staysOnLine h hb) ds
  | cons c cs ih =>
    rw [List.cons_append]
    by_cases hnil : advance c rules = []
    · rw [longest_of_advance_eq_nil hnil, longest_of_advance_eq_nil hnil]
    · rw [longest_of_advance_eq rfl hnil, longest_of_advance_eq rfl hnil, ih (all_advance h c)]

lemma advance_append (c : Char) (rules rules' : List (α × Regex)) :
    advance c (rules ++ rules') = advance c rules ++ advance c rules' := by
  rw [advance, List.map_append, List.filter_append]
  rfl

end BrighterCheck.Regex

namespace BrighterCheck.TokenKind

open Regex

/-- Every pattern but that of a line end stays on its line. -/
lemma patterns_eq : ∃ front,
    patterns = front ++ [(.newline, Pattern.newline), (.identifier, Pattern.identifier)] ∧
      (∀ rule ∈ front, rule.2.all staysOnLine = true) ∧
        Pattern.identifier.all staysOnLine = true := by
  refine ⟨_, rfl, ?_, ?_⟩
  · exact List.all_eq_true.1 rfl
  · rfl

/-- Where no line ends, what is left of the patterns stays on the line. -/
lemma staysOnLine_advance {c : Char} (hr : c ≠ '\r') (hn : c ≠ '\n') :
    ∀ rule ∈ advance c patterns, rule.2.all staysOnLine = true := by
  obtain ⟨front, hpatterns, hfront, hidentifier⟩ := patterns_eq
  have hnewline : advance c [(TokenKind.newline, Pattern.newline)] = [] := by
    simp [advance, Pattern.newline, opt, char, Regex.deriv, choose, join, nullable, isNothing, hr,
      hn]
  intro rule hrule
  rw [hpatterns, advance_append, ← List.singleton_append, advance_append, hnewline,
    List.nil_append] at hrule
  rcases List.mem_append.1 hrule with hrule | hrule
  · exact all_advance hfront c rule hrule
  · have hlast : ∀ rule ∈ [(TokenKind.identifier, Pattern.identifier)],
        rule.2.all staysOnLine = true := by
      intro rule hrule
      cases List.mem_singleton.1 hrule
      exact hidentifier
    exact all_advance hlast c rule hrule

lemma advance_break {c : Char} (hc : c = '\r' ∨ c = '\n') :
    advance c patterns = advance c [(.newline, Pattern.newline)] := by
  obtain ⟨front, hpatterns, hfront, hidentifier⟩ := patterns_eq
  have hrest : advance c [(TokenKind.identifier, Pattern.identifier)] = [] := by
    refine advance_of_staysOnLine ?_ hc
    intro rule hrule
    cases List.mem_singleton.1 hrule
    exact hidentifier
  rw [hpatterns, advance_append, advance_of_staysOnLine hfront hc, List.nil_append,
    ← List.singleton_append, advance_append, hrest, List.append_nil]

/-- Behind a line feed the token is complete. -/
lemma longest_empty (cs : List Char) :
    longest [(TokenKind.newline, .empty)] cs = some (.newline, 0) := by
  cases cs with
  | nil => rfl
  | cons c cs => exact longest_of_advance_eq_nil rfl cs

lemma longest_newline (cs : List Char) : longest patterns ('\n' :: cs) = some (.newline, 1) := by
  have hlive : advance '\n' patterns = [(.newline, .empty)] := by
    rw [advance_break (.inr rfl)]
    simp [advance, Pattern.newline, opt, char, Regex.deriv, choose, join, nullable, isNothing]
  rw [longest_of_advance_eq hlive (by simp), longest_empty]
  rfl

/-- No token is empty. -/
lemma accepting_patterns : accepting patterns = none := rfl

/-- A carriage return is a token only in front of a line feed. -/
lemma longest_return (cs : List Char) :
    longest patterns ('\r' :: cs) = if cs.head? = some '\n' then some (.newline, 2) else none := by
  have hlive : advance '\r' patterns = [(.newline, char '\n')] := by
    rw [advance_break (.inl rfl)]
    simp [advance, Pattern.newline, opt, char, Regex.deriv, choose, join, nullable, isNothing]
  rw [longest_of_advance_eq hlive (by simp), accepting_patterns]
  cases cs with
  | nil => rfl
  | cons c cs =>
    by_cases hc : c = '\n'
    · have hfeed : advance c [(TokenKind.newline, char '\n')] = [(.newline, .empty)] := by
        simp [advance, char, Regex.deriv, isNothing, hc]
      rw [longest_of_advance_eq hfeed (by simp), longest_empty, hc]
      rfl
    · have hfeed : advance c [(TokenKind.newline, char '\n')] = [] := by
        simp [advance, char, Regex.deriv, isNothing, hc]
      rw [longest_of_advance_eq_nil hfeed, List.head?_cons, if_neg (by simpa using hc)]
      rfl

/-- What stands behind the end of a line is not seen from a place on the line. -/
lemma longest_patterns_append_break {c b : Char} (hc : ¬ (c = '\r' ∨ c = '\n'))
    (hb : b = '\r' ∨ b = '\n') (cs ds : List Char) :
    longest patterns (c :: (cs ++ b :: ds)) = longest patterns (c :: cs) := by
  obtain ⟨hr, hn⟩ := not_or.1 hc
  have hlive := staysOnLine_advance hr hn
  by_cases hnil : advance c patterns = []
  · rw [longest_of_advance_eq_nil hnil, longest_of_advance_eq_nil hnil]
  · rw [longest_of_advance_eq rfl hnil, longest_of_advance_eq rfl hnil, longest_append hlive hb]

/-- A token that is found stays the same if its text is followed by a line feed and other text. -/
lemma longest_patterns_append {c : Char} {cs : List Char} {kind : TokenKind} {n : Nat}
    (h : longest patterns (c :: cs) = some (kind, n)) (ds : List Char) :
    longest patterns (c :: (cs ++ '\n' :: ds)) = some (kind, n) := by
  by_cases hc : c = '\r' ∨ c = '\n'
  · cases hc with
    | inl hreturn =>
      subst hreturn
      rw [longest_return] at h ⊢
      cases cs with
      | nil => cases h
      | cons d cs => exact h
    | inr hfeed =>
      subst hfeed
      rw [longest_newline] at h ⊢
      exact h
  · rw [longest_patterns_append_break hc (.inr rfl)]
    exact h

end BrighterCheck.TokenKind
