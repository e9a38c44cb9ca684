import BrighterCheck.Proofs.Parser.Layers.Grammar
import BrighterCheck.Proofs.Parser.Soundness.Basic
import Mathlib.Data.List.TakeWhile

/-!
# Runs over tokens in a row

What single tokens and blanks become when they stand at the front, and what an answer says about
what stood there. The steps of the loops in expressions have names of their own.
-/

namespace BrighterCheck

open BrighterCheck.Parser

namespace Reading

/-- The reading that is left when `rest` has still to be read and nodes were made by `made`. -/
def moved (s : Reading) (rest : List Token) (made : Store → Store) : Reading :=
  { s with tokens := rest, store := made s.store }

variable {s : Reading} {ts us : List Token} {f g : Store → Store}

@[simp] lemma tokens_moved : (s.moved ts f).tokens = ts := rfl

@[simp] lemma store_moved : (s.moved ts f).store = f s.store := rfl

@[simp] lemma eof_moved : (s.moved ts f).eof = s.eof := rfl

@[simp] lemma moved_moved : (s.moved ts f).moved us g = s.moved us fun a => g (f a) := rfl

@[simp] lemma current_moved_cons {t : Token} : (s.moved (t :: ts) f).current = t := rfl

/-- Behind an expression, the next node has the number behind its nodes. -/
lemma next_moved_store (e : Expression) : (s.moved ts e.store).next = s.next + e.size :=
  e.size_store s.store

lemma current_of_cons {t : Token} (h : s.tokens = t :: ts) : s.current = t := by
  rw [current, h]

end Reading

namespace Parser

variable {s s' : Reading} {t : Token} {ts : List Token}

/-! ### Single tokens -/

lemma advance_of_cons (hs : s.tokens = t :: ts) : advance s = .ok t (s.moved ts id) := by
  rw [advance, hs]
  rfl

lemma kind_of_cons (hs : s.tokens = t :: ts) : kind s = .ok t.kind s :=
  kind_eq_ok.2 ⟨by rw [Reading.current_of_cons hs], rfl⟩

lemma expect_of_cons {k : TokenKind} (hs : s.tokens = t :: ts) (hk : t.kind = k) :
    expect k s = .ok t (s.moved ts id) := by
  have hat : isAt k s = .ok true s :=
    isAt_eq_ok.2 ⟨by rw [Reading.current_of_cons hs, hk, decide_eq_true rfl], rfl⟩
  exact (bind_of_ok hat).trans (advance_of_cons hs)

lemma expectName_of_cons {role : NameRole} (hs : s.tokens = t :: ts)
    (hk : t.kind.isNameLike = true) : expectName role s = .ok t.asIdentifier (s.moved ts id) := by
  refine (bind_of_ok (kind_of_cons hs)).trans ?_
  rw [hk, if_pos rfl]
  exact map_eq_ok.2 ⟨t, advance_of_cons hs, rfl⟩

/-- Blanks are passed over up to something that is no blank. -/
lemma skipNewlines_of_append {blanks : List Token} (he : s.eof.kind = .eof)
    (hs : s.tokens = blanks ++ ts) (hb : ∀ t ∈ blanks, isBlank t.kind = true)
    (hc : isBlank (s.moved ts id).current.kind = false) :
    skipNewlines s = .ok () (s.moved ts id) := by
  have hdrop : s.tokens.dropWhile (fun t => isBlank t.kind) = ts := by
    rw [hs, List.dropWhile_append_of_pos hb]
    cases ts with
    | nil => rfl
    | cons t ts => exact List.dropWhile_cons_of_neg (by simpa using hc)
  refine (skip_eq (by rw [he]; rfl)).trans ?_
  rw [hdrop]
  rfl

/-- A node is made under the next number. -/
lemma node_of_next {form : Form NumberedTree} {range : Option Range} {n : Nat} (h : s.next = n) :
    node form range s = .ok ⟨n, form.kind, range, form.children⟩
      (s.moved s.tokens fun a => a.alloc (form.map Tree.id) range) := by
  subst h
  rfl

/-! ### What an answer says about the front -/

lemma advance_inv {k : TokenKind} (he : s.eof.kind = .eof) (hk : s.current.kind = k)
    (hne : k ≠ .eof) (h : advance s = .ok t s') :
    t.kind = k ∧ ∃ ts, s.tokens = t :: ts ∧ s' = s.moved ts id := by
  obtain ⟨rfl, ht, hs⟩ := advance_eq_ok (by rw [hk, he]; exact hne) h
  exact ⟨hk, _, ht, hs⟩

lemma expect_inv {k : TokenKind} (he : s.eof.kind = .eof) (hne : k ≠ .eof)
    (h : expect k s = .ok t s') : t.kind = k ∧ ∃ ts, s.tokens = t :: ts ∧ s' = s.moved ts id := by
  obtain ⟨b, u, hat, h⟩ := bind_eq_ok.1 h
  obtain ⟨rfl, rfl⟩ := isAt_eq_ok.1 hat
  by_cases hk : s.current.kind = k
  · rw [if_pos (by simpa using hk)] at h
    exact advance_inv he hk hne h
  · rw [if_neg (by simpa using hk)] at h
    exact absurd h not_refuseFor_eq_ok

lemma expectName_inv {role : NameRole} (he : s.eof.kind = .eof)
    (h : expectName role s = .ok t s') :
    ∃ u ts, t = u.asIdentifier ∧ u.kind.isNameLike = true ∧ s.tokens = u :: ts ∧
      s' = s.moved ts id := by
  obtain ⟨u, rfl, hu, ht, hs⟩ := expectName_eq_ok he h
  exact ⟨u, _, rfl, hu, ht, hs⟩

lemma acceptIf_inv_none {wanted : TokenKind → Bool} (h : acceptIf wanted s = .ok none s') :
    s' = s ∧ wanted s.current.kind = false := by
  obtain ⟨k, u, hk, h⟩ := bind_eq_ok.1 h
  obtain ⟨rfl, rfl⟩ := kind_eq_ok.1 hk
  cases hw : wanted s.current.kind with
  | true =>
    rw [hw, if_pos rfl] at h
    obtain ⟨t, -, ht⟩ := map_eq_ok.1 h
    cases ht
  | false =>
    rw [hw, if_neg Bool.false_ne_true] at h
    exact ⟨(pure_eq_ok.1 h).2.symm, rfl⟩

lemma acceptIf_inv_some {wanted : TokenKind → Bool} (he : wanted s.eof.kind = false)
    (h : acceptIf wanted s = .ok (some t) s') :
    wanted t.kind = true ∧ ∃ ts, s.tokens = t :: ts ∧ s' = s.moved ts id := by
  rcases acceptIf_eq_ok he h with ⟨hn, -, -⟩ | ⟨u, hu, -, hw, ht, hs⟩
  · cases hn
  · cases hu
    exact ⟨hw, _, ht, hs⟩

lemma skipNewlines_inv {a : Unit} (he : s.eof.kind = .eof) (h : skipNewlines s = .ok a s') :
    ∃ blanks ts, (∀ t ∈ blanks, isBlank t.kind = true) ∧ s.tokens = blanks ++ ts ∧
      s' = s.moved ts id := by
  have hskip : skipNewlines s = _ := skip_eq (by rw [he]; rfl)
  rw [hskip] at h
  cases h
  refine ⟨s.tokens.takeWhile fun t => isBlank t.kind, _, fun t ht => ?_,
    List.takeWhile_append_dropWhile.symm, rfl⟩
  exact List.mem_takeWhile_imp (p := fun t : Token => isBlank t.kind) ht

/-! ### Steps of loops -/

/-- An operator behind `left` with the operand behind it. -/
def binaryStep (isOperator : TokenKind → Bool) (operand : Parser NumberedTree)
    (left : NumberedTree) : Parser (Option NumberedTree) := do
  match ← acceptIf isOperator with
  | none => return none
  | some operator => some <$> binaryNode left operator (← operand)

lemma binaryLayer_eq (isOperator : TokenKind → Bool) (operand : Parser NumberedTree) :
    binaryLayer isOperator operand = operand >>= iterate (binaryStep isOperator operand) :=
  rfl

/-- An item of a list with what is behind it, if the list goes on. -/
def commaStep {α : Type} (close : TokenKind → Bool) (blanks : Parser Unit) (item : Parser α) :
    List α × Bool → Parser (Option (List α × Bool)) := fun (read, goesOn) => do
  if !goesOn || close (← kind) then
    return none
  else
    let a ← item
    blanks
    match ← accept (.punctuator .comma) with
    | none => return some (a :: read, false)
    | some _ =>
      blanks
      return some (a :: read, true)

lemma commaList_eq {α : Type} (close : TokenKind → Bool) (blanks : Parser Unit) (item : Parser α) :
    commaList close blanks item =
      iterate (commaStep close blanks item) ([], true) >>= fun r => pure r.1.reverse :=
  rfl

end Parser

end BrighterCheck
