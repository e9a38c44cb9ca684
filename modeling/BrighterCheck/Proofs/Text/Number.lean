import BrighterCheck.Text.Number
import Mathlib.Data.Nat.Digits.Defs
import Mathlib.Data.List.Induction
import Mathlib.Tactic.Lemma

/-!
# Numerals

Reading a numeral answers the number that its digits stand for, and nothing for any other text.
-/

namespace BrighterCheck

/-- The number that the digit `c` stands for. -/
def digitValue (c : Char) : Nat :=
  c.toNat - '0'.toNat

/-- The text `cs` is a numeral for `n`: digits, the lowest one last. -/
structure IsNumeral (cs : List Char) (n : Nat) : Prop where
  ne_nil : cs ≠ []
  isDigit : ∀ c ∈ cs, c.isDigit = true
  ofDigits_eq : Nat.ofDigits 10 (cs.reverse.map digitValue) = n

/-- The text `cs` is a numeral for `n`, which may follow a plus sign, and `n` has 32 bits. -/
def IsCode (cs : List Char) (n : Nat) : Prop :=
  n < codeBound ∧ (IsNumeral cs n ∨ ∃ digits, cs = '+' :: digits ∧ IsNumeral digits n)

variable {cs : List Char} {n : Nat}

lemma digitsValue?_concat (cs : List Char) (c : Char) :
    digitsValue? (cs ++ [c]) = (digitsValue? cs).bind fun n =>
      if c.isDigit then some (10 * n + digitValue c) else none := by
  rw [digitsValue?, List.foldl_append]
  rfl

lemma digitsValue?_eq_some_iff :
    digitsValue? cs = some n ↔
      (∀ c ∈ cs, c.isDigit = true) ∧ Nat.ofDigits 10 (cs.reverse.map digitValue) = n := by
  induction cs using List.reverseRecOn generalizing n with
  | nil => simp [digitsValue?]
  | append_singleton cs c ih =>
    rw [digitsValue?_concat, Option.bind_eq_some_iff]
    simp only [ih, List.reverse_append, List.reverse_singleton, List.singleton_append,
      List.map_cons, Nat.ofDigits_cons, List.mem_append, List.mem_singleton]
    constructor
    · rintro ⟨m, ⟨hcs, rfl⟩, hm⟩
      cases hc : c.isDigit with
      | false => simp [hc] at hm
      | true =>
        simp only [hc, if_true, Option.some.injEq] at hm
        refine ⟨?_, by simp [← hm, Nat.add_comm]⟩
        rintro d (hd | rfl)
        · exact hcs d hd
        · exact hc
    · rintro ⟨hcs, rfl⟩
      refine ⟨_, ⟨fun d hd => hcs d (.inl hd), rfl⟩, ?_⟩
      simp [hcs c (.inr rfl), Nat.add_comm]

lemma natural?_eq_some_iff : natural? cs = some n ↔ IsNumeral cs n := by
  unfold natural?
  cases cs with
  | nil => exact ⟨nofun, fun h => absurd rfl h.ne_nil⟩
  | cons c cs =>
    rw [List.isEmpty_cons, if_neg Bool.false_ne_true, digitsValue?_eq_some_iff]
    constructor
    · rintro ⟨hdigits, hvalue⟩
      exact ⟨List.cons_ne_nil _ _, hdigits, hvalue⟩
    · intro h
      exact ⟨h.isDigit, h.ofDigits_eq⟩

/-- A plus sign is no digit. -/
lemma not_isNumeral_plus : ¬ IsNumeral ('+' :: cs) n :=
  fun h => absurd (h.isDigit '+' (.head _)) (by decide)

/-- A code is read from a numeral of at most 32 bits, and from nothing else. -/
theorem code?_eq_some_iff : code? cs = some n ↔ IsCode cs n := by
  unfold code? IsCode
  rw [Option.filter_eq_some_iff, decide_eq_true_iff, natural?_eq_some_iff, and_comm]
  refine and_congr_right fun _ => ?_
  split
  case h_1 digits =>
    constructor
    · exact fun h => .inr ⟨digits, rfl, h⟩
    · rintro (h | ⟨_, ⟨⟩, h⟩)
      · exact absurd h not_isNumeral_plus
      · exact h
  case h_2 cs hplus =>
    constructor
    · exact .inl
    · rintro (h | ⟨digits, rfl, -⟩)
      · exact h
      · exact absurd rfl (hplus digits)

/-- The decimal digits of a number are a numeral for it. -/
lemma isNumeral_toDigits (n : Nat) : IsNumeral (Nat.toDigits 10 n) n := by
  have hdigit : ∀ d < 10, digitValue (Nat.digitChar d) = d := by decide
  induction n using Nat.strongRecOn with
  | ind n ih =>
    have hdigits : ∀ c ∈ Nat.toDigits 10 n, c.isDigit = true := fun c hc =>
      Nat.isDigit_of_mem_toDigits (by decide) (by decide) hc
    by_cases hn : n < 10
    · rw [Nat.toDigits_of_lt_base hn] at hdigits ⊢
      exact ⟨List.cons_ne_nil _ _, hdigits, by simp [hdigit n hn]⟩
    · have hsmall : n / 10 < n := by omega
      have hlast := hdigit (n % 10) (Nat.mod_lt n (by decide))
      rw [Nat.toDigits_of_base_le (by decide) (Nat.not_lt.1 hn)] at hdigits ⊢
      refine ⟨by simp, hdigits, ?_⟩
      rw [List.reverse_append, List.reverse_singleton, List.singleton_append, List.map_cons,
        Nat.ofDigits_cons, (ih _ hsmall).ofDigits_eq, hlast]
      exact Nat.mod_add_div n 10

end BrighterCheck
