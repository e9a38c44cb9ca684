import BrighterCheck.Proofs.Parser.Layers.Run

/-!
# Expressions are read from their tokens

A parser recovers the expressions that fit some layers if it reads every one of them from its
tokens, as far as nothing behind them continues it. Each way to put parsers together keeps this: a
loop over operators or accessors goes through an expression from its leftmost operand outwards, so
that what it has read so far is always an expression by itself.
-/

namespace BrighterCheck

open BrighterCheck.Parser

namespace Expression

/-- An expression starts with a token that can start one. -/
lemma Fits.starts {ls : List Layer} {e : Expression} (h : e.Fits ls) :
    ∃ t ts, e.tokens = t :: ts ∧ Parser.starts ls t.kind = true := by
  induction h with
  | name hk => exact ⟨_, _, rfl, by simp [Parser.starts, hk]⟩
  | literal hk => exact ⟨_, _, rfl, by simp [Parser.starts, hk]⟩
  | grouping ho => exact ⟨_, _, rfl, by simp [Parser.starts, ho]⟩
  | dotted _ _ _ ih | indexed _ _ _ _ _ _ _ ih | call _ _ _ _ _ _ ih =>
    obtain ⟨t, ts, ht, hstarts⟩ := ih
    exact ⟨t, _, by rw [tokens, ht]; rfl, hstarts⟩
  | @tighter l ls e _ ih =>
    obtain ⟨t, ts, ht, hstarts⟩ := ih
    refine ⟨t, ts, ht, ?_⟩
    cases l with
    | between => exact hstarts
    | before => simp [Parser.starts, hstarts]
  | unary hop => exact ⟨_, _, rfl, by simp [Parser.starts, hop]⟩
  | binary _ _ _ ih =>
    obtain ⟨t, ts, ht, hstarts⟩ := ih
    exact ⟨t, _, by rw [tokens, ht]; rfl, hstarts⟩

end Expression

namespace Parser

/--
In a stream of less than `b` tokens, `m` reads every expression that fits the layers from its
tokens, up to something that does not continue it.
-/
def Recovers (m : Parser NumberedTree) (ls : List Layer) (b : Nat) : Prop :=
  ∀ ⦃e : Expression⦄ ⦃s : Reading⦄ ⦃rest : List Token⦄, e.Fits ls → s.eof.kind = .eof →
    s.tokens.length < b → s.tokens = e.tokens ++ rest →
    continues ls (s.moved rest e.store).current.kind = false →
    m s = .ok (e.tree s.next) (s.moved rest e.store)

variable {n : Nested} {m : Parser NumberedTree} {ls : List Layer} {operators : List TokenKind}
  {b : Nat} {e : Expression} {s : Reading} {rest : List Token}

/-! ### Operators between operands -/

/-- Whatever operators of the layer follow, the loop goes through the expression before them. -/
lemma binaryLayer_eq_iterate (hm : Recovers m ls b)
    (hops : ∀ k ∈ operators, continues ls k = false) (he : e.Fits (.between operators :: ls))
    (heof : s.eof.kind = .eof) (hb : s.tokens.length < b) (hs : s.tokens = e.tokens ++ rest)
    (hc : continues ls (s.moved rest e.store).current.kind = false) :
    binaryLayer (· ∈ operators) m s =
      iterate (binaryStep (· ∈ operators) m) (e.tree s.next) (s.moved rest e.store) := by
  generalize hl : Layer.between operators :: ls = ls' at he
  induction he generalizing s rest
  case tighter he _ =>
    cases hl
    exact bind_of_ok (hm he heof hb hs hc)
  case binary left right op _ hop hright ih _ =>
    cases hl
    rw [Expression.tokens, List.append_assoc, List.cons_append] at hs
    have hlen : (op :: (right.tokens ++ rest)).length < b := by
      rw [hs, List.length_append] at hb
      exact Nat.lt_of_le_of_lt (Nat.le_add_left _ _) hb
    have hleft := ih heof hb hs (hops op.kind hop) rfl
    rw [hleft]
    have hacc : acceptIf (· ∈ operators) (s.moved (op :: (right.tokens ++ rest)) left.store) =
        .ok (some op) (s.moved (right.tokens ++ rest) left.store) :=
      acceptIf_of_true rfl (decide_eq_true hop)
    have hoperand : m (s.moved (right.tokens ++ rest) left.store) =
        .ok (right.tree (s.next + left.size))
          ((s.moved (right.tokens ++ rest) left.store).moved rest right.store) := by
      have h := hm (s := s.moved (right.tokens ++ rest) left.store) hright heof
        (Nat.lt_of_succ_lt hlen) rfl hc
      rwa [Reading.next_moved_store] at h
    have hnext : ((s.moved (right.tokens ++ rest) left.store).moved rest right.store).next =
        s.next + (left.size + right.size) := by
      rw [Reading.next_moved_store, Reading.next_moved_store, Nat.add_assoc]
    have hstep : binaryStep (· ∈ operators) m (left.tree s.next)
        (s.moved (op :: (right.tokens ++ rest)) left.store) =
          .ok (some ((Expression.binary left op right).tree s.next))
            (s.moved rest (Expression.binary left op right).store) :=
      (bind_of_ok hacc).trans ((bind_of_ok hoperand).trans
        (map_eq_ok.2 ⟨_, node_of_next hnext, rfl⟩))
    refine iterate_of_some hstep ?_
    simp only [Reading.tokens_moved, List.length_cons, List.length_append]
    omega
  all_goals (exact absurd hl (by simp))

/-- Operands with operators between them. -/
lemma recovers_binaryLayer (hm : Recovers m ls b)
    (hops : ∀ k ∈ operators, continues ls k = false) :
    Recovers (binaryLayer (· ∈ operators) m) (.between operators :: ls) b := by
  intro e s rest he heof hb hs hc
  obtain ⟨hnone, hc⟩ := Bool.or_eq_false_iff.1 hc
  rw [binaryLayer_eq_iterate hm hops he heof hb hs hc]
  exact iterate_of_none ((bind_of_ok (acceptIf_of_false hnone)).trans rfl)

/-! ### Operators in front of an operand -/

/-- An expression of such a layer is some operators with a tighter expression behind them. -/
lemma exists_operators (he : e.Fits (.before operators :: ls)) :
    ∃ (ops : List Token) (inner : Expression), e = ops.foldr .unary inner ∧
      (∀ t ∈ ops, t.kind ∈ operators) ∧ inner.Fits ls := by
  generalize hl : Layer.before operators :: ls = ls' at he
  induction he
  case tighter e he _ =>
    cases hl
    exact ⟨[], e, rfl, nofun, he⟩
  case unary op e hop _ ih =>
    cases hl
    obtain ⟨ops, inner, rfl, hops, hinner⟩ := ih rfl
    exact ⟨op :: ops, inner, rfl, List.forall_mem_cons.2 ⟨hop, hops⟩, hinner⟩
  all_goals (exact absurd hl (by simp))

lemma tokens_foldr_unary (ops : List Token) (inner : Expression) :
    (ops.foldr Expression.unary inner).tokens = ops ++ inner.tokens := by
  induction ops with
  | nil => rfl
  | cons op ops ih => simp [Expression.tokens, ih]

/-- The operators become nodes from the innermost one outwards. -/
lemma foldrM_unaryNode_eq (ops : List Token) (inner : Expression) :
    ops.foldrM unaryNode (inner.tree s.next) (s.moved rest inner.store) =
      .ok ((ops.foldr Expression.unary inner).tree s.next)
        (s.moved rest (ops.foldr Expression.unary inner).store) := by
  induction ops with
  | nil => rfl
  | cons op ops ih =>
    rw [List.foldrM_cons]
    exact (bind_of_ok ih).trans (node_of_next (Reading.next_moved_store _))

/-- An operand behind operators. -/
lemma recovers_unaryLayer (hm : Recovers m ls b) (heof : .eof ∉ operators)
    (hops : ∀ k ∈ operators, starts ls k = false) :
    Recovers (unaryLayer (· ∈ operators) m) (.before operators :: ls) b := by
  intro e s rest he hs_eof hb hs hc
  obtain ⟨ops, inner, rfl, hkind, hinner⟩ := exists_operators he
  obtain ⟨t, ts, ht, hstart⟩ := hinner.starts
  rw [tokens_foldr_unary, List.append_assoc] at hs
  have hnot : decide (t.kind ∈ operators) = false :=
    decide_eq_false fun hmem => by
      rw [hops _ hmem] at hstart
      cases hstart
  have htake : s.tokens.takeWhile (fun t => decide (t.kind ∈ operators)) = ops := by
    rw [hs, List.takeWhile_append_of_pos (by simpa using hkind), ht]
    simp [hnot]
  have hdrop : s.tokens.dropWhile (fun t => decide (t.kind ∈ operators)) =
      inner.tokens ++ rest := by
    rw [hs, List.dropWhile_append_of_pos (by simpa using hkind), ht]
    simp [hnot]
  have hmany : many (acceptIf (· ∈ operators)) s = .ok ops (s.moved (inner.tokens ++ rest) id) := by
    refine (many_acceptIf_eq (by simpa [hs_eof] using heof)).trans ?_
    rw [htake, hdrop]
    rfl
  have hlen : (inner.tokens ++ rest).length < b := by
    rw [hs, List.length_append] at hb
    exact Nat.lt_of_le_of_lt (Nat.le_add_left _ _) hb
  have hoperand : m (s.moved (inner.tokens ++ rest) id) =
      .ok (inner.tree s.next) (s.moved rest inner.store) :=
    hm (s := s.moved (inner.tokens ++ rest) id) hinner hs_eof hlen rfl hc
  exact (bind_of_ok hmany).trans ((bind_of_ok hoperand).trans (foldrM_unaryNode_eq ops inner))

/-! ### Values in brackets -/

lemma isBlank_iff {k : TokenKind} : isBlank k = true ↔ k = .newline ∨ k = .comment := by
  cases k <;> simp [isBlank]

/-- A blank never continues an expression. -/
lemma continues_of_isBlank {k : TokenKind} (h : isBlank k = true) :
    continues operatorLayers k = false := by
  rcases isBlank_iff.1 h with rfl | rfl <;> rfl

/-- A blank never starts an expression. -/
lemma isBlank_of_starts {k : TokenKind} (h : starts operatorLayers k = true) :
    isBlank k = false := by
  refine eq_false_of_ne_true fun hblank => ?_
  rcases isBlank_iff.1 hblank with rfl | rfl <;> cases h

/-- A closing parenthesis never starts an expression. -/
lemma closesParen_of_starts {k : TokenKind} (h : starts operatorLayers k = true) :
    closesParen k = false := by
  refine decide_eq_false fun hk => ?_
  subst hk
  cases h

/-- Kinds of tokens that can stand behind values without being a part of them. -/
structure EndsValues (k : TokenKind) : Prop where
  not_blank : isBlank k = false
  not_comma : k ≠ .punctuator .comma
  not_continues : continues operatorLayers k = false

/-- Behind a value there are blanks, or something else that does not continue it. -/
lemma continues_current_append {blanks : List Token} {c : Token} {made : Store → Store}
    (hb : ∀ t ∈ blanks, isBlank t.kind = true) (hc : continues operatorLayers c.kind = false) :
    continues operatorLayers (s.moved (blanks ++ c :: rest) made).current.kind = false := by
  cases blanks with
  | nil => exact hc
  | cons t ts => exact continues_of_isBlank (hb t (.head ts))

/-- A value, or the comma or the token that ends a list, is no blank. -/
lemma not_isBlank_current {vs : Values Expression} {c : Token} {made : Store → Store}
    (hvs : ∀ v ∈ vs.values, v.Fits operatorLayers) (hc : EndsValues c.kind) :
    isBlank (s.moved (Expression.tokensAll vs ++ c :: rest) made).current.kind = false := by
  cases vs with
  | empty => exact hc.not_blank
  | last value | more value =>
    obtain ⟨t, ts, ht, hstart⟩ := (hvs value (.head _)).starts
    rw [Expression.tokensAll, ht]
    exact isBlank_of_starts hstart

section Values

variable {close : TokenKind → Bool} {c : Token} {vs : Values Expression} {blanks : List Token}
  (read : List NumberedTree)

/-- A value of a list, with the blanks behind it. -/
lemma commaStep_value (hn : Recovers n.expression operatorLayers b)
    (hclose : ∀ k, starts operatorLayers k = true → close k = false) (hc : EndsValues c.kind ∨
      c.kind = .punctuator .comma) (he : e.Fits operatorLayers)
    (hblanks : ∀ t ∈ blanks, isBlank t.kind = true) (heof : s.eof.kind = .eof)
    (hb : s.tokens.length < b) (hs : s.tokens = e.tokens ++ (blanks ++ c :: rest)) :
    commaStep close skipNewlines n.expression (read, true) s =
      (accept (.punctuator .comma) >>= fun o => match o with
        | none => pure (some (e.tree s.next :: read, false))
        | some _ => skipNewlines >>= fun _ => pure (some (e.tree s.next :: read, true)))
        (s.moved (c :: rest) e.store) := by
  obtain ⟨t, ts, ht, hstart⟩ := he.starts
  have hcons : s.tokens = t :: (ts ++ (blanks ++ c :: rest)) := by
    rw [hs, ht, List.cons_append]
  have hcontinues : continues operatorLayers c.kind = false := by
    rcases hc with hc | hc
    · exact hc.not_continues
    · rw [hc]
      rfl
  have hblank : isBlank c.kind = false := by
    rcases hc with hc | hc
    · exact hc.not_blank
    · rw [hc]
      rfl
  have hvalue : n.expression s = .ok (e.tree s.next) (s.moved (blanks ++ c :: rest) e.store) :=
    hn he heof hb hs (continues_current_append hblanks hcontinues)
  have hskip : skipNewlines (s.moved (blanks ++ c :: rest) e.store) =
      .ok () (s.moved (c :: rest) e.store) :=
    skipNewlines_of_append heof rfl hblanks hblank
  refine (bind_of_ok (kind_of_cons hcons)).trans ?_
  rw [hclose _ hstart, if_neg (by simp)]
  exact (bind_of_ok hvalue).trans (bind_of_ok hskip)

/-- The last value of a list. -/
lemma commaStep_last (hn : Recovers n.expression operatorLayers b)
    (hclose : ∀ k, starts operatorLayers k = true → close k = false) (hc : EndsValues c.kind)
    (he : e.Fits operatorLayers) (hblanks : ∀ t ∈ blanks, isBlank t.kind = true)
    (heof : s.eof.kind = .eof) (hb : s.tokens.length < b)
    (hs : s.tokens = e.tokens ++ (blanks ++ c :: rest)) :
    commaStep close skipNewlines n.expression (read, true) s =
      .ok (some (e.tree s.next :: read, false)) (s.moved (c :: rest) e.store) := by
  rw [commaStep_value read hn hclose (.inl hc) he hblanks heof hb hs]
  exact bind_of_ok (acceptIf_of_false (decide_eq_false hc.not_comma))

/-- A value of a list with a comma behind it, up to what follows the blanks behind the comma. -/
lemma commaStep_more {comma : Token} {behind ts : List Token}
    (hn : Recovers n.expression operatorLayers b)
    (hclose : ∀ k, starts operatorLayers k = true → close k = false)
    (he : e.Fits operatorLayers) (hblanks : ∀ t ∈ blanks, isBlank t.kind = true)
    (hcomma : comma.kind = .punctuator .comma) (hbehind : ∀ t ∈ behind, isBlank t.kind = true)
    (hts : isBlank (s.moved ts e.store).current.kind = false) (heof : s.eof.kind = .eof)
    (hb : s.tokens.length < b)
    (hs : s.tokens = e.tokens ++ (blanks ++ comma :: (behind ++ ts))) :
    commaStep close skipNewlines n.expression (read, true) s =
      .ok (some (e.tree s.next :: read, true)) (s.moved ts e.store) := by
  have hacc : accept (.punctuator .comma) (s.moved (comma :: (behind ++ ts)) e.store) =
      .ok (some comma) (s.moved (behind ++ ts) e.store) :=
    acceptIf_of_true rfl (decide_eq_true hcomma)
  have hskip : skipNewlines (s.moved (behind ++ ts) e.store) = .ok () (s.moved ts e.store) :=
    skipNewlines_of_append heof rfl hbehind hts
  rw [commaStep_value read hn hclose (.inr hcomma) he hblanks heof hb hs]
  exact (bind_of_ok hacc).trans (bind_of_ok hskip)

/-- The loop goes through all values of a list. -/
lemma iterate_commaStep (hn : Recovers n.expression operatorLayers b)
    (hclose : ∀ k, starts operatorLayers k = true → close k = false) (hc : EndsValues c.kind)
    (hend : vs.endsInValue = false → close c.kind = true) (hmarked : vs.IsMarked)
    (hvs : ∀ v ∈ vs.values, v.Fits operatorLayers) (heof : s.eof.kind = .eof)
    (hb : s.tokens.length < b) (hs : s.tokens = Expression.tokensAll vs ++ c :: rest) :
    ∃ goesOn, iterate (commaStep close skipNewlines n.expression) (read, true) s =
      .ok ((Expression.treeAll vs s.next).reverse ++ read, goesOn)
        (s.moved (c :: rest) (Expression.storeAll vs)) := by
  induction vs generalizing s read with
  | empty =>
    have hstop : commaStep close skipNewlines n.expression (read, true) s = .ok none s := by
      refine (bind_of_ok (kind_of_cons hs)).trans ?_
      rw [hend rfl]
      rfl
    have hself : s.moved (c :: rest) (Expression.storeAll .empty) = s := by
      rw [← List.nil_append (c :: rest), ← Expression.tokensAll, ← hs]
      rfl
    rw [hself]
    exact ⟨true, iterate_of_none hstop⟩
  | last value blanks =>
    rw [Expression.tokensAll, List.append_assoc] at hs
    have hstep := commaStep_last read hn hclose hc (hvs value (.head _)) hmarked heof hb hs
    have hlt : (c :: rest).length < s.tokens.length := by
      obtain ⟨t, ts, ht, -⟩ := (hvs value (.head _)).starts
      rw [hs, ht]
      simp only [List.length_cons, List.length_append]
      omega
    refine ⟨false, (iterate_of_some hstep hlt).trans (iterate_of_none ?_)⟩
    exact bind_of_ok (kind_of_cons rfl)
  | more value before comma behind vs ih =>
    obtain ⟨hbefore, hcomma, hbehind, hmarked⟩ := hmarked
    obtain ⟨hvalue, hvs⟩ := List.forall_mem_cons.1 hvs
    rw [Expression.tokensAll, List.append_assoc, List.append_assoc, List.cons_append,
      List.append_assoc] at hs
    have hstep := commaStep_more read hn hclose hvalue hbefore hcomma hbehind
      (not_isBlank_current hvs hc) heof hb hs
    have hlt : (Expression.tokensAll vs ++ c :: rest).length < s.tokens.length := by
      rw [hs]
      simp only [List.length_cons, List.length_append]
      omega
    obtain ⟨goesOn, hrest⟩ := ih (s := s.moved (Expression.tokensAll vs ++ c :: rest) value.store)
      (value.tree s.next :: read) hend hmarked hvs heof (Nat.lt_trans hlt hb) rfl
    refine ⟨goesOn, (iterate_of_some hstep hlt).trans (hrest.trans ?_)⟩
    rw [Reading.next_moved_store, Reading.moved_moved]
    simp [Expression.treeAll, Expression.storeAll]

lemma commaList_of_append (hn : Recovers n.expression operatorLayers b)
    (hclose : ∀ k, starts operatorLayers k = true → close k = false) (hc : EndsValues c.kind)
    (hend : vs.endsInValue = false → close c.kind = true) (hmarked : vs.IsMarked)
    (hvs : ∀ v ∈ vs.values, v.Fits operatorLayers) (heof : s.eof.kind = .eof)
    (hb : s.tokens.length < b) (hs : s.tokens = Expression.tokensAll vs ++ c :: rest) :
    commaList close skipNewlines n.expression s =
      .ok (Expression.treeAll vs s.next) (s.moved (c :: rest) (Expression.storeAll vs)) := by
  obtain ⟨goesOn, hloop⟩ := iterate_commaStep [] hn hclose hc hend hmarked hvs heof hb hs
  rw [commaList_eq]
  refine (bind_of_ok hloop).trans ?_
  rw [List.append_nil, List.reverse_reverse]
  rfl

end Values

/-! ### Operands -/

section Accessors

variable {object : NumberedTree} {t opening close : Token} {blanks behind : List Token}
  {vs : Values Expression}

lemma endsValues_closeParen : EndsValues (.punctuator .closeParen) :=
  ⟨rfl, nofun, rfl⟩

lemma endsValues_closeSquare : EndsValues (.punctuator .closeSquare) :=
  ⟨rfl, nofun, rfl⟩

/-- A name, a literal or an expression in parentheses starts what has accessors behind it. -/
lemma primary_name (hk : t.kind = .identifier) (hs : s.tokens = t :: rest) :
    primary n s =
      .ok ((Expression.name t).tree s.next) (s.moved rest (Expression.name t).store) := by
  refine (bind_of_ok (kind_of_cons hs)).trans ?_
  rw [hk]
  exact (bind_of_ok (advance_of_cons hs)).trans rfl

lemma primary_literal (hk : t.kind.isLiteral = true) (hs : s.tokens = t :: rest) :
    primary n s =
      .ok ((Expression.literal t).tree s.next) (s.moved rest (Expression.literal t).store) := by
  have hleaf : (advance >>= fun token => leaf (.literal token) token) s =
      .ok ((Expression.literal t).tree s.next) (s.moved rest (Expression.literal t).store) :=
    (bind_of_ok (advance_of_cons hs)).trans rfl
  refine (bind_of_ok (kind_of_cons hs)).trans ?_
  unfold TokenKind.isLiteral at hk
  split at hk
  case h_1 hkind | h_2 hkind | h_3 hkind | h_4 hkind =>
    rw [hkind]
    exact hleaf
  case h_5 => cases hk

lemma primary_grouping (hn : Recovers n.expression operatorLayers b)
    (hopening : opening.kind = .punctuator .openParen)
    (hblanks : ∀ t ∈ blanks, isBlank t.kind = true) (he : e.Fits operatorLayers)
    (hbehind : ∀ t ∈ behind, isBlank t.kind = true)
    (hclose : close.kind = .punctuator .closeParen) (heof : s.eof.kind = .eof)
    (hb : s.tokens.length < b + 1)
    (hs : s.tokens = opening :: (blanks ++ (e.tokens ++ (behind ++ close :: rest)))) :
    primary n s = .ok ((Expression.grouping opening blanks e behind close).tree s.next)
      (s.moved rest (Expression.grouping opening blanks e behind close).store) := by
  obtain ⟨t, ts, ht, hstart⟩ := he.starts
  have hlen : (e.tokens ++ (behind ++ close :: rest)).length < b := by
    rw [hs] at hb
    simp only [List.length_cons, List.length_append] at hb ⊢
    omega
  have hskip : skipNewlines (s.moved (blanks ++ (e.tokens ++ (behind ++ close :: rest))) id) =
      .ok () (s.moved (e.tokens ++ (behind ++ close :: rest)) id) := by
    refine skipNewlines_of_append heof rfl hblanks ?_
    rw [ht]
    exact isBlank_of_starts hstart
  have hinner : n.expression (s.moved (e.tokens ++ (behind ++ close :: rest)) id) =
      .ok (e.tree s.next) (s.moved (behind ++ close :: rest) e.store) :=
    hn (s := s.moved (e.tokens ++ (behind ++ close :: rest)) id) he heof hlen rfl
      (continues_current_append hbehind (by rw [hclose]; rfl))
  have hskip' : skipNewlines (s.moved (behind ++ close :: rest) e.store) =
      .ok () (s.moved (close :: rest) e.store) :=
    skipNewlines_of_append heof rfl hbehind (by rw [Reading.current_moved_cons, hclose]; rfl)
  have hexpect : expect (.punctuator .closeParen) (s.moved (close :: rest) e.store) =
      .ok close (s.moved rest e.store) :=
    expect_of_cons rfl hclose
  refine (bind_of_ok (kind_of_cons hs)).trans ?_
  rw [hopening]
  refine (bind_of_ok (advance_of_cons hs)).trans ((bind_of_ok hskip).trans ?_)
  exact (bind_of_ok hinner).trans ((bind_of_ok hskip').trans ((bind_of_ok hexpect).trans
    (node_of_next (Reading.next_moved_store e))))

lemma accessor_dotted {dot property : Token} {number : Nat} (hdot : dot.kind = .punctuator .dot)
    (hproperty : property.kind.isNameLike = true) (hs : s.tokens = dot :: property :: rest)
    (hnumber : s.next = number) :
    accessor n object s = .ok (some ⟨number, .dottedGet dot property.asIdentifier,
      Range.bounding [object.range, some property.asIdentifier.range], [object]⟩)
        (s.moved rest fun a => a.alloc (.dottedGet object.id dot property.asIdentifier)
          (Range.bounding [object.range, some property.asIdentifier.range])) := by
  have hname : expectName .property (s.moved (property :: rest) id) =
      .ok property.asIdentifier (s.moved rest id) :=
    expectName_of_cons rfl hproperty
  refine (bind_of_ok (kind_of_cons hs)).trans ?_
  rw [hdot]
  exact (bind_of_ok (advance_of_cons hs)).trans ((bind_of_ok hname).trans
    (map_eq_ok.2 ⟨_, node_of_next hnumber, rfl⟩))

/-- Behind the opening bracket there are fewer tokens. -/
lemma length_lt_of_opening {ts : List Token} (hb : s.tokens.length < b + 1)
    (hs : s.tokens = opening :: (blanks ++ ts)) : ts.length < b := by
  rw [hs] at hb
  simp only [List.length_cons, List.length_append] at hb
  omega

/-- Blanks, values and the closing bracket, behind the opening one. -/
lemma values_of_append {closes : TokenKind → Bool} {k : TokenKind}
    (hn : Recovers n.expression operatorLayers b)
    (hcloses : ∀ k, starts operatorLayers k = true → closes k = false) (hk : EndsValues k)
    (hend : vs.endsInValue = false → closes k = true)
    (hblanks : ∀ t ∈ blanks, isBlank t.kind = true) (hmarked : vs.IsMarked)
    (hvs : ∀ v ∈ vs.values, v.Fits operatorLayers) (hclose : close.kind = k)
    (heof : s.eof.kind = .eof) (hb : s.tokens.length < b + 1)
    (hs : s.tokens = opening :: (blanks ++ (Expression.tokensAll vs ++ close :: rest))) :
    skipNewlines (s.moved (blanks ++ (Expression.tokensAll vs ++ close :: rest)) id) =
        .ok () (s.moved (Expression.tokensAll vs ++ close :: rest) id) ∧
      commaList closes skipNewlines n.expression
          (s.moved (Expression.tokensAll vs ++ close :: rest) id) =
        .ok (Expression.treeAll vs s.next) (s.moved (close :: rest) (Expression.storeAll vs)) ∧
      expect k (s.moved (close :: rest) (Expression.storeAll vs)) =
        .ok close (s.moved rest (Expression.storeAll vs)) := by
  subst hclose
  refine ⟨skipNewlines_of_append heof rfl hblanks (not_isBlank_current hvs hk), ?_,
    expect_of_cons rfl rfl⟩
  exact commaList_of_append (s := s.moved (Expression.tokensAll vs ++ close :: rest) id) hn
    hcloses hk hend hmarked hvs heof (length_lt_of_opening hb hs) rfl

/-- Brackets take tokens, whatever stands between them. -/
lemma length_lt_of_brackets (ts : List Token) :
    rest.length < (opening :: (blanks ++ (ts ++ close :: rest))).length := by
  simp only [List.length_cons, List.length_append]
  omega

lemma accessor_indexed {number : Nat} (hn : Recovers n.expression operatorLayers b)
    (hopening : opening.kind = .punctuator .openSquare)
    (hblanks : ∀ t ∈ blanks, isBlank t.kind = true) (hmarked : vs.IsMarked)
    (hend : vs.endsInValue = true) (hvs : ∀ v ∈ vs.values, v.Fits operatorLayers)
    (hclose : close.kind = .punctuator .closeSquare) (heof : s.eof.kind = .eof)
    (hb : s.tokens.length < b + 1)
    (hs : s.tokens = opening :: (blanks ++ (Expression.tokensAll vs ++ close :: rest)))
    (hnumber : s.next = number) :
    accessor n object s = .ok (some ⟨number + Expression.sizeAll vs,
      .indexedGet none opening close, Range.bounding [object.range, some close.range],
      object :: Expression.treeAll vs number⟩)
        (s.moved rest fun a => (Expression.storeAll vs a).alloc
          (.indexedGet object.id none opening ((Expression.treeAll vs number).map Tree.id) close)
          (Range.bounding [object.range, some close.range])) := by
  subst hnumber
  obtain ⟨hskip, hlist, hexpect⟩ := values_of_append hn (fun _ _ => rfl) endsValues_closeSquare
    (by simp [hend]) hblanks hmarked hvs hclose heof hb hs
  refine (bind_of_ok (kind_of_cons hs)).trans ?_
  rw [hopening]
  refine (bind_of_ok (advance_of_cons hs)).trans (map_eq_ok.2 ⟨_, ?_, rfl⟩)
  exact (bind_of_ok hskip).trans ((bind_of_ok hlist).trans ((bind_of_ok hexpect).trans
    (node_of_next (Expression.size_storeAll vs s.store))))

lemma accessor_call {number : Nat} (hn : Recovers n.expression operatorLayers b)
    (hopening : opening.kind = .punctuator .openParen)
    (hblanks : ∀ t ∈ blanks, isBlank t.kind = true) (hmarked : vs.IsMarked)
    (hvs : ∀ v ∈ vs.values, v.Fits operatorLayers)
    (hclose : close.kind = .punctuator .closeParen) (heof : s.eof.kind = .eof)
    (hb : s.tokens.length < b + 1)
    (hs : s.tokens = opening :: (blanks ++ (Expression.tokensAll vs ++ close :: rest)))
    (hnumber : s.next = number) :
    accessor n object s = .ok (some ⟨number + Expression.sizeAll vs, .call,
      Range.bounding [object.range, some close.range],
      object :: Expression.treeAll vs number⟩)
        (s.moved rest fun a => (Expression.storeAll vs a).alloc
          (.call object.id ((Expression.treeAll vs number).map Tree.id))
          (Range.bounding [object.range, some close.range])) := by
  subst hnumber
  obtain ⟨hskip, hlist, hexpect⟩ := values_of_append hn (fun _ => closesParen_of_starts)
    endsValues_closeParen (fun _ => rfl) hblanks hmarked hvs hclose heof hb hs
  have hrest : arguments n (s.moved (blanks ++ (Expression.tokensAll vs ++ close :: rest)) id) =
      .ok (Expression.treeAll vs s.next, close) (s.moved rest (Expression.storeAll vs)) :=
    (bind_of_ok hskip).trans ((bind_of_ok hlist).trans ((bind_of_ok hexpect).trans rfl))
  refine (bind_of_ok (kind_of_cons hs)).trans ?_
  rw [hopening]
  exact (bind_of_ok (advance_of_cons hs)).trans ((bind_of_ok hrest).trans
    (map_eq_ok.2 ⟨_, node_of_next (Expression.size_storeAll vs s.store), rfl⟩))

/-- Behind an operand that nothing continues, there is no accessor. -/
lemma accessor_of_not_isAccessor (h : isAccessor s.current.kind = false) :
    accessor n object s = .ok none s := by
  refine (bind_of_ok (kind_eq_ok.2 ⟨rfl, rfl⟩)).trans ?_
  generalize s.current.kind = k at h ⊢
  cases k with
  | punctuator p => cases p <;> first | rfl | cases h
  | _ => rfl

/-- An operand that was read becomes the object of the accessor behind it. -/
lemma iterate_accessor {ts : List Token} {made more : Store → Store} {t : NumberedTree}
    (hstep : accessor n object (s.moved ts made) = .ok (some t) ((s.moved ts made).moved rest more))
    (hlt : rest.length < ts.length) :
    iterate (accessor n) object (s.moved ts made) =
      iterate (accessor n) t (s.moved rest fun a => more (made a)) :=
  iterate_of_some hstep hlt

/-- Whatever accessors follow, the loop goes through the operand in front of them. -/
lemma accessed_eq_iterate (hn : Recovers n.expression operatorLayers b) (he : e.Fits [])
    (heof : s.eof.kind = .eof) (hb : s.tokens.length < b + 1) (hs : s.tokens = e.tokens ++ rest) :
    accessed n s = iterate (accessor n) (e.tree s.next) (s.moved rest e.store) := by
  generalize hl : ([] : List Layer) = ls at he
  induction he generalizing s rest
  case name hk => exact bind_of_ok (primary_name hk hs)
  case literal hk => exact bind_of_ok (primary_literal hk hs)
  case grouping hopening hbefore he hbehind hclose _ =>
    rw [Expression.tokens] at hs
    exact bind_of_ok (primary_grouping hn hopening hbefore he hbehind hclose heof hb
      (by simpa using hs))
  case dotted hdot hproperty ih =>
    rw [Expression.tokens, List.append_assoc] at hs
    rw [ih heof hb hs hl]
    exact iterate_accessor (accessor_dotted hdot hproperty rfl (Reading.next_moved_store _))
      (Nat.lt_succ_of_lt (Nat.lt_succ_self _))
  case indexed object opening close blanks vs _ hopening hblanks hmarked hend hvs hclose ih _ =>
    rw [Expression.tokens, List.append_assoc, List.cons_append, List.append_assoc,
      List.append_assoc, List.singleton_append] at hs
    rw [ih heof hb hs hl]
    rw [hs, List.length_append] at hb
    exact iterate_accessor (accessor_indexed hn hopening hblanks hmarked hend hvs hclose heof
      (Nat.lt_of_le_of_lt (Nat.le_add_left _ _) hb) rfl (Reading.next_moved_store _))
      (length_lt_of_brackets _)
  case call object opening close blanks vs _ hopening hblanks hmarked hvs hclose ih _ =>
    rw [Expression.tokens, List.append_assoc, List.cons_append, List.append_assoc,
      List.append_assoc, List.singleton_append] at hs
    rw [ih heof hb hs hl]
    rw [hs, List.length_append] at hb
    exact iterate_accessor (accessor_call hn hopening hblanks hmarked hvs hclose heof
      (Nat.lt_of_le_of_lt (Nat.le_add_left _ _) hb) rfl (Reading.next_moved_store _))
      (length_lt_of_brackets _)
  all_goals (exact absurd hl (by simp))

lemma recovers_accessed (hn : Recovers n.expression operatorLayers b) :
    Recovers (accessed n) [] (b + 1) := by
  intro e s rest he heof hb hs hc
  rw [accessed_eq_iterate hn he heof hb hs]
  exact iterate_of_none (accessor_of_not_isAccessor hc)

end Accessors

/-! ### All layers -/

/-- With distinct operators, every layer recovers what fits it from what fits the tighter ones. -/
theorem recovers_layered (hn : Recovers n.expression operatorLayers b)
    (hls : areDistinct ls = true) : Recovers (layered n ls) ls (b + 1) := by
  induction ls with
  | nil => exact recovers_accessed hn
  | cons l ls ih =>
    cases l with
    | between operators =>
      obtain ⟨hops, hls⟩ := Bool.and_eq_true_iff.1 hls
      refine recovers_binaryLayer (ih hls) fun k hk => ?_
      simpa using (Bool.and_eq_true_iff.1 (List.all_eq_true.1 hops k hk)).2
    | before operators =>
      obtain ⟨hops, hls⟩ := Bool.and_eq_true_iff.1 hls
      refine recovers_unaryLayer (ih hls) (fun hk => ?_) fun k hk => ?_
      · simpa using (Bool.and_eq_true_iff.1 (List.all_eq_true.1 hops _ hk)).1
      · simpa using (Bool.and_eq_true_iff.1 (List.all_eq_true.1 hops k hk)).2

/-- Every expression is read from its tokens. -/
theorem recovers_expressionWithin (depth : Nat) :
    Recovers (expressionWithin depth) operatorLayers depth := by
  induction depth with
  | zero => exact fun _ _ _ _ _ hb => absurd hb (Nat.not_lt_zero _)
  | succ depth ih =>
    rw [expressionWithin, expression_eq_layered]
    exact recovers_layered ih areDistinct_operatorLayers

end Parser

end BrighterCheck
