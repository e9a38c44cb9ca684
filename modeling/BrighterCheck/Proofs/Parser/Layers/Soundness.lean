import BrighterCheck.Proofs.Parser.Layers.Completeness
import BrighterCheck.Proofs.Tree.Located

/-!
# Trees of expressions come from expressions

A parser explains the trees of operations that it answers if every one of them is the tree of an
expression that fits, and the tokens of the expression are those that were read. Loops are followed
from their first value on: a value with one more operator or accessor around it is explained if it
was explained before. With completeness, expressions are read exactly as the grammar says.
-/

namespace BrighterCheck

open BrighterCheck.Parser

/-- Nodes that the layers of the grammar account for: no literals in brackets, no functions, no
constructors, and no accessor with a question mark or an at sign. -/
def NodeKind.isOperation : NodeKind → Bool
  | .name _ | .literal _ | .grouping | .unary _ | .binary _ | .call => true
  | .dottedGet dot _ => dot.kind = .punctuator .dot
  | .indexedGet none opening _ => opening.kind = .punctuator .openSquare
  | _ => false

namespace Tree

variable {ι : Type} {t u : Tree ι}

/-- All nodes of a tree are accounted for. -/
def IsOperation (t : Tree ι) : Prop :=
  ∀ u ∈ t.preorder, u.kind.isOperation = true

lemma isOperation_iff :
    t.IsOperation ↔ t.kind.isOperation = true ∧ ∀ u ∈ t.children, u.IsOperation := by
  constructor
  · intro h
    exact ⟨h t t.self_mem_preorder, fun u hu v hv => h v (mem_preorder_of_child hu hv)⟩
  · rintro ⟨hkind, hchildren⟩ u hu
    rcases mem_preorder.1 hu with rfl | hu
    · exact hkind
    · obtain ⟨v, hv, hu⟩ := mem_preorderAll.1 hu
      exact hchildren v hv u hu

lemma IsOperation.kind (h : t.IsOperation) : t.kind.isOperation = true :=
  (isOperation_iff.1 h).1

lemma IsOperation.child (h : t.IsOperation) (hu : u ∈ t.children) : u.IsOperation :=
  (isOperation_iff.1 h).2 u hu

end Tree

namespace Expression

variable {e : Expression} {ls : List Layer}

/-- The trees of values are trees of these values. -/
lemma exists_of_mem_treeAll {vs : Values Expression} {n : Nat} {t : NumberedTree}
    (ht : t ∈ treeAll vs n) : ∃ v ∈ vs.values, ∃ m, t = v.tree m := by
  induction vs generalizing n with
  | empty => cases ht
  | last value =>
    cases List.mem_singleton.1 ht
    exact ⟨value, .head _, n, rfl⟩
  | more value _ _ _ rest ih =>
    rcases List.mem_cons.1 ht with rfl | ht
    · exact ⟨value, .head _, n, rfl⟩
    · obtain ⟨v, hv, m, hm⟩ := ih ht
      exact ⟨v, .tail _ hv, m, hm⟩

/-- The nodes of an expression are operations. -/
lemma Fits.isOperation_tree (h : e.Fits ls) (n : Nat) : (e.tree n).IsOperation := by
  induction h generalizing n with
  | name | literal => exact Tree.isOperation_iff.2 ⟨rfl, nofun⟩
  | grouping _ _ _ _ _ ih | unary _ _ ih =>
    exact Tree.isOperation_iff.2 ⟨rfl, List.forall_mem_singleton.2 (ih n)⟩
  | dotted _ hdot _ ih =>
    exact Tree.isOperation_iff.2 ⟨decide_eq_true hdot, List.forall_mem_singleton.2 (ih n)⟩
  | indexed _ hopening _ _ _ _ _ ih ihv =>
    refine Tree.isOperation_iff.2 ⟨decide_eq_true hopening, List.forall_mem_cons.2 ⟨ih n, ?_⟩⟩
    intro t ht
    obtain ⟨v, hv, m, rfl⟩ := exists_of_mem_treeAll ht
    exact ihv v hv m
  | call _ _ _ _ _ _ ih ihv =>
    refine Tree.isOperation_iff.2 ⟨rfl, List.forall_mem_cons.2 ⟨ih n, ?_⟩⟩
    intro t ht
    obtain ⟨v, hv, m, rfl⟩ := exists_of_mem_treeAll ht
    exact ihv v hv m
  | tighter _ ih => exact ih n
  | binary _ _ _ ihl ihr =>
    exact Tree.isOperation_iff.2 ⟨rfl, List.forall_mem_cons.2
      ⟨ihl n, List.forall_mem_singleton.2 (ihr _)⟩⟩

end Expression

namespace Parser

/-- Between two readings stands an expression that fits the layers, and `t` is its tree. -/
def Written (ls : List Layer) (t : NumberedTree) (s s' : Reading) : Prop :=
  ∃ (e : Expression) (rest : List Token), e.Fits ls ∧ s.tokens = e.tokens ++ rest ∧
    t = e.tree s.next ∧ s' = s.moved rest e.store

/-- Every tree of operations that `m` answers is written between where it starts and ends. -/
def Explains (m : Parser NumberedTree) (ls : List Layer) : Prop :=
  ∀ ⦃s : Reading⦄ ⦃t : NumberedTree⦄ ⦃s' : Reading⦄, s.eof.kind = .eof → m s = .ok t s' →
    t.IsOperation → Written ls t s s' ∧ continues ls s'.current.kind = false

variable {n : Nested} {m : Parser NumberedTree} {l : Layer} {ls : List Layer}
  {operators : List TokenKind} {s s₀ s' : Reading} {t object left : NumberedTree}

lemma Written.tighter (h : Written ls t s s') : Written (l :: ls) t s s' := by
  obtain ⟨e, rest, he, hs⟩ := h
  exact ⟨e, rest, .tighter he, hs⟩

lemma Written.eof_eq (h : Written ls t s s') : s'.eof = s.eof := by
  obtain ⟨e, rest, -, -, -, rfl⟩ := h
  rfl

/-- Something is written, as no expression is empty. -/
lemma Written.length_lt (h : Written ls t s s') : s'.tokens.length < s.tokens.length := by
  obtain ⟨e, rest, he, hs, -, rfl⟩ := h
  obtain ⟨t, ts, ht, -⟩ := he.starts
  rw [hs, ht]
  simp only [Reading.tokens_moved, List.length_cons, List.length_append]
  omega

/--
A loop that puts values into new ones explains its last value: each step keeps `I` and takes a
token, and when the loop declines `J` holds.
-/
lemma iterate_explained {step : NumberedTree → Parser (Option NumberedTree)}
    {I : NumberedTree → Reading → Prop} {J : Reading → Prop}
    (hchild : ∀ a s b s', step a s = .ok (some b) s' → a ∈ b.children)
    (hsome : ∀ a s b s', I a s → step a s = .ok (some b) s' → b.IsOperation →
      I b s' ∧ s'.tokens.length < s.tokens.length)
    (hnone : ∀ a s s', I a s → step a s = .ok none s' → s' = s ∧ J s)
    (ht : t.IsOperation → I t s) {b : NumberedTree} (h : iterate step t s = .ok b s')
    (hb : b.IsOperation) : I b s' ∧ J s' := by
  induction t, s using iterate.induct step with
  | case1 a s e u hs =>
    rw [iterate_of_error hs] at h
    cases h
  | case2 a s u hs =>
    rw [iterate_of_none hs] at h
    cases h
    obtain ⟨rfl, hJ⟩ := hnone _ _ _ (ht hb) hs
    exact ⟨ht hb, hJ⟩
  | case3 a s c u hs hlt ih =>
    rw [iterate_of_some hs hlt] at h
    exact ih (fun hc => (hsome a s c u (ht (hc.child (hchild a s c u hs))) hs hc).1) h
  | case4 a s c u hs hlt =>
    -- A step that answers an operation takes a token, so the loop does not stop here.
    rw [iterate_of_still hs hlt] at h
    cases h
    exact absurd (hsome a s b _ (ht (hb.child (hchild a s b _ hs))) hs hb).2 hlt

/-! ### Operators between operands -/

lemma binaryStep_inv {isOperator : TokenKind → Bool} {u : NumberedTree}
    (h : binaryStep isOperator m left s = .ok (some u) s') :
    ∃ op r v w, acceptIf isOperator s = .ok (some op) v ∧ m v = .ok r w ∧
      u = ⟨w.next, .binary op, Range.bounding [left.range, r.range], [left, r]⟩ ∧
      s' = w.moved w.tokens fun a =>
        a.alloc (.binary left.id op r.id) (Range.bounding [left.range, r.range]) := by
  obtain ⟨o, v, ho, h⟩ := bind_eq_ok.1 h
  cases o with
  | none => cases (pure_eq_ok.1 h).1
  | some op =>
    obtain ⟨r, w, hr, h⟩ := bind_eq_ok.1 h
    obtain ⟨x, hx, hu⟩ := map_eq_ok.1 h
    cases hu
    obtain ⟨rfl, rfl⟩ := node_eq_ok.1 hx
    exact ⟨op, r, v, w, ho, hr, rfl, rfl⟩

lemma binaryStep_inv_none {isOperator : TokenKind → Bool}
    (h : binaryStep isOperator m left s = .ok none s') :
    s' = s ∧ isOperator s.current.kind = false := by
  obtain ⟨o, v, ho, h⟩ := bind_eq_ok.1 h
  cases o with
  | none =>
    obtain ⟨-, rfl⟩ := pure_eq_ok.1 h
    exact acceptIf_inv_none ho
  | some op =>
    obtain ⟨r, w, -, h⟩ := bind_eq_ok.1 h
    obtain ⟨x, -, hx⟩ := map_eq_ok.1 h
    cases hx

/-- What is written is the left operand of what is behind it. -/
lemma Written.binary {op : Token} {r : NumberedTree} {ts : List Token} {u : Reading}
    (hl : Written (.between operators :: ls) left s₀ s) (hop : op.kind ∈ operators)
    (hs : s.tokens = op :: ts) (hr : Written ls r (s.moved ts id) u) :
    Written (.between operators :: ls)
      ⟨u.next, .binary op, Range.bounding [left.range, r.range], [left, r]⟩ s₀
      (u.moved u.tokens fun a =>
        a.alloc (.binary left.id op r.id) (Range.bounding [left.range, r.range])) := by
  obtain ⟨e, rest, he, htokens, rfl, rfl⟩ := hl
  obtain ⟨e', rest', he', htokens', rfl, rfl⟩ := hr
  cases hs
  refine ⟨.binary e op e', rest', .binary he hop he', ?_, ?_, ?_⟩
  · rw [htokens, Expression.tokens, List.append_assoc, List.cons_append, ← htokens']
    rfl
  · simp [Expression.tree, Reading.next, Nat.add_assoc]
  · simp [Expression.store, Expression.tree, Reading.next, Reading.moved]

lemma explains_binaryLayer (hm : Explains m ls) (heof : .eof ∉ operators) :
    Explains (binaryLayer (· ∈ operators) m) (.between operators :: ls) := by
  intro s₀ t s' hs h ht
  rw [binaryLayer_eq] at h
  obtain ⟨first, u, hfirst, h⟩ := bind_eq_ok.1 h
  have hnot : ∀ s : Reading, s.eof = s₀.eof → decide (s.eof.kind ∈ operators) = false :=
    fun s he => decide_eq_false (by rwa [he, hs])
  have hloop := iterate_explained
    (I := fun a s => Written (.between operators :: ls) a s₀ s ∧
      continues ls s.current.kind = false)
    (J := fun s => decide (s.current.kind ∈ operators) = false) ?_ ?_ ?_ ?_ h ht
  · exact ⟨hloop.1.1, Bool.or_eq_false_iff.2 ⟨hloop.2, hloop.1.2⟩⟩
  · intro a s b s' hb
    obtain ⟨op, r, v, w, -, -, rfl, -⟩ := binaryStep_inv hb
    exact .head _
  · rintro a s b s' ⟨ha, -⟩ hb hop
    obtain ⟨op, r, v, w, hacc, hr, rfl, rfl⟩ := binaryStep_inv hb
    obtain ⟨hk, ts, hts, rfl⟩ := acceptIf_inv_some (hnot s ha.eof_eq) hacc
    obtain ⟨hwritten, hc⟩ := hm (by rw [Reading.eof_moved, ha.eof_eq, hs]) hr
      (hop.child (.tail _ (.head _)))
    have hlt := hwritten.length_lt
    refine ⟨⟨ha.binary (of_decide_eq_true hk) hts hwritten, hc⟩, ?_⟩
    rw [hts]
    exact Nat.lt_succ_of_lt hlt
  · rintro a s s' - hnone
    exact binaryStep_inv_none hnone
  · intro hop
    obtain ⟨hwritten, hc⟩ := hm hs hfirst hop
    exact ⟨hwritten.tighter, hc⟩

/-! ### Operators in front of an operand -/

/-- The innermost operand is a part of the operators around it. -/
lemma isOperation_of_foldrM {ops : List Token} {v : NumberedTree}
    (h : ops.foldrM unaryNode v s = .ok t s') (ht : t.IsOperation) : v.IsOperation := by
  induction ops generalizing t s' with
  | nil =>
    obtain ⟨rfl, -⟩ := pure_eq_ok.1 h
    exact ht
  | cons op ops ih =>
    rw [List.foldrM_cons] at h
    obtain ⟨u, w, hu, h⟩ := bind_eq_ok.1 h
    obtain ⟨rfl, -⟩ := node_eq_ok.1 h
    exact ih hu (ht.child (.head _))

lemma fits_foldr_unary {ops : List Token} {e : Expression} (he : e.Fits ls)
    (hops : ∀ t ∈ ops, t.kind ∈ operators) :
    (ops.foldr Expression.unary e).Fits (.before operators :: ls) := by
  induction ops with
  | nil => exact .tighter he
  | cons op ops ih =>
    obtain ⟨hop, hops⟩ := List.forall_mem_cons.1 hops
    exact .unary hop (ih hops)

lemma explains_unaryLayer (hm : Explains m ls) (heof : .eof ∉ operators) :
    Explains (unaryLayer (· ∈ operators) m) (.before operators :: ls) := by
  intro s t s' hs h ht
  obtain ⟨ops, u, hops, h⟩ := bind_eq_ok.1 h
  obtain ⟨v, w, hv, hfold⟩ := bind_eq_ok.1 h
  rw [many_acceptIf_eq (decide_eq_false (by rwa [hs]))] at hops
  cases hops
  let ops := s.tokens.takeWhile fun t => decide (t.kind ∈ operators)
  have hops : ∀ t ∈ ops, t.kind ∈ operators := fun t ht =>
    of_decide_eq_true
      (List.mem_takeWhile_imp (p := fun t : Token => decide (t.kind ∈ operators)) ht)
  obtain ⟨⟨e, rest, he, htokens, rfl, rfl⟩, hc⟩ :=
    hm (s := s.moved (s.tokens.dropWhile fun t => decide (t.kind ∈ operators)) id) hs hv
      (isOperation_of_foldrM hfold ht)
  have hfold := (foldrM_unaryNode_eq ops e).symm.trans hfold
  cases hfold
  refine ⟨⟨ops.foldr .unary e, rest, fits_foldr_unary he hops, ?_, rfl, rfl⟩, hc⟩
  rw [tokens_foldr_unary, List.append_assoc, ← htokens]
  exact List.takeWhile_append_dropWhile.symm

/-! ### Values in brackets -/

section Values

variable {close : TokenKind → Bool} {item : Parser NumberedTree} {read : List NumberedTree}
  {goesOn : Bool} {r r' : List NumberedTree × Bool}

/--
Between two readings stand values that fit, and `ts` are their trees; unless a value comes last,
something stands behind them that `close` allows there.
-/
def ValuesWritten (close : TokenKind → Bool) (ts : List NumberedTree) (s s' : Reading) : Prop :=
  ∃ (vs : Values Expression) (rest : List Token), vs.IsMarked ∧
    (∀ v ∈ vs.values, v.Fits operatorLayers) ∧
    (vs.endsInValue = false → close s'.current.kind = true) ∧
    s.tokens = Expression.tokensAll vs ++ rest ∧ ts = Expression.treeAll vs s.next ∧
    s' = s.moved rest (Expression.storeAll vs)

lemma ValuesWritten.eof_eq {ts : List NumberedTree} (h : ValuesWritten close ts s s') :
    s'.eof = s.eof := by
  obtain ⟨vs, rest, -, -, -, -, -, rfl⟩ := h
  rfl

lemma ValuesWritten.empty (h : close s.current.kind = true) : ValuesWritten close [] s s :=
  ⟨.empty, s.tokens, trivial, nofun, fun _ => h, rfl, rfl, rfl⟩

lemma Written.last {blanks ts : List Token} {u : Reading} (h : Written operatorLayers t s u)
    (hblanks : ∀ t ∈ blanks, isBlank t.kind = true) (hu : u.tokens = blanks ++ ts) :
    ValuesWritten close [t] s (u.moved ts id) := by
  obtain ⟨e, rest, he, hs, rfl, rfl⟩ := h
  obtain rfl : rest = blanks ++ ts := hu
  refine ⟨.last e blanks, ts, hblanks, List.forall_mem_singleton.2 he, nofun, ?_, rfl, rfl⟩
  rw [hs, Expression.tokensAll, List.append_assoc]

lemma Written.more {before behind rest : List Token} {comma : Token} {u : Reading}
    {ts : List NumberedTree} (h : Written operatorLayers t s u)
    (hbefore : ∀ t ∈ before, isBlank t.kind = true) (hcomma : comma.kind = .punctuator .comma)
    (hbehind : ∀ t ∈ behind, isBlank t.kind = true)
    (hu : u.tokens = before ++ comma :: (behind ++ rest))
    (hts : ValuesWritten close ts (u.moved rest id) s') : ValuesWritten close (t :: ts) s s' := by
  obtain ⟨e, us, he, hs, rfl, rfl⟩ := h
  obtain ⟨vs, rest', hmarked, hvs, hend, htokens, rfl, rfl⟩ := hts
  obtain rfl : us = before ++ comma :: (behind ++ rest) := hu
  obtain rfl : rest = Expression.tokensAll vs ++ rest' := htokens
  refine ⟨.more e before comma behind vs, rest', ⟨hbefore, hcomma, hbehind, hmarked⟩,
    List.forall_mem_cons.2 ⟨he, hvs⟩, hend, ?_, ?_, rfl⟩
  · rw [hs]
    simp [Expression.tokensAll]
  · simp [Expression.treeAll, Reading.next]

lemma commaStep_inv_none (h : commaStep close skipNewlines item (read, goesOn) s = .ok none s') :
    s' = s ∧ (goesOn = true → close s.current.kind = true) := by
  obtain ⟨k, u, hk, h⟩ := bind_eq_ok.1 h
  obtain ⟨rfl, rfl⟩ := kind_eq_ok.1 hk
  by_cases hstop : (!goesOn || close s.current.kind) = true
  · rw [if_pos hstop] at h
    refine ⟨(pure_eq_ok.1 h).2.symm, fun hgoes => ?_⟩
    simpa [hgoes] using hstop
  · rw [if_neg hstop] at h
    obtain ⟨a, v, -, h⟩ := bind_eq_ok.1 h
    obtain ⟨_, w, -, h⟩ := bind_eq_ok.1 h
    obtain ⟨o, x, -, h⟩ := bind_eq_ok.1 h
    cases o with
    | none => cases (pure_eq_ok.1 h).1
    | some comma =>
      obtain ⟨_, y, -, h⟩ := bind_eq_ok.1 h
      cases (pure_eq_ok.1 h).1

/-- A step reads one more value, with a comma behind it if the list goes on. -/
lemma commaStep_inv
    (h : commaStep close skipNewlines item (read, goesOn) s = .ok (some r) s') :
    goesOn = true ∧ ∃ a u v, item s = .ok a u ∧ skipNewlines u = .ok () v ∧
      ((r = (a :: read, false) ∧ s' = v) ∨ ∃ comma w, r = (a :: read, true) ∧
        accept (.punctuator .comma) v = .ok (some comma) w ∧ skipNewlines w = .ok () s') := by
  obtain ⟨k, u, hk, h⟩ := bind_eq_ok.1 h
  obtain ⟨rfl, rfl⟩ := kind_eq_ok.1 hk
  by_cases hstop : (!goesOn || close s.current.kind) = true
  · rw [if_pos hstop] at h
    cases (pure_eq_ok.1 h).1
  · rw [if_neg hstop] at h
    have hgoes : goesOn = true := by
      by_contra hgoes
      exact hstop (by simp [hgoes])
    obtain ⟨a, u, ha, h⟩ := bind_eq_ok.1 h
    obtain ⟨_, v, hv, h⟩ := bind_eq_ok.1 h
    obtain ⟨o, w, hw, h⟩ := bind_eq_ok.1 h
    refine ⟨hgoes, a, u, v, ha, hv, ?_⟩
    cases o with
    | none =>
      obtain ⟨hr, rfl⟩ := pure_eq_ok.1 h
      cases hr
      exact .inl ⟨rfl, (acceptIf_inv_none hw).1⟩
    | some comma =>
      obtain ⟨_, x, hx, h⟩ := bind_eq_ok.1 h
      obtain ⟨hr, rfl⟩ := pure_eq_ok.1 h
      cases hr
      exact .inr ⟨comma, w, rfl, hw, hx⟩

/-- If the value of a step is an operation, it is written in front of the values behind it. -/
lemma commaStep_explained (hn : Explains n.expression operatorLayers) (hs : s.eof.kind = .eof)
    (h : commaStep close skipNewlines n.expression (read, goesOn) s = .ok (some r) s') :
    goesOn = true ∧ ∃ a more, r = (a :: read, more) ∧ (a.IsOperation →
      s'.eof = s.eof ∧ s'.tokens.length < s.tokens.length ∧
        ((more = false ∧ ValuesWritten close [a] s s') ∨ (more = true ∧ ∀ ts s'',
          ValuesWritten close ts s' s'' → ValuesWritten close (a :: ts) s s''))) := by
  obtain ⟨hgoes, a, u, v, ha, hv, hr⟩ := commaStep_inv h
  refine ⟨hgoes, a, ?_⟩
  rcases hr with ⟨rfl, rfl⟩ | ⟨comma, w, rfl, hcomma, hw⟩
  · refine ⟨false, rfl, fun hop => ?_⟩
    obtain ⟨hwritten, -⟩ := hn hs ha hop
    obtain ⟨blanks, ts, hblanks, hu, rfl⟩ := skipNewlines_inv (by rw [hwritten.eof_eq, hs]) hv
    have hlt := hwritten.length_lt
    refine ⟨hwritten.eof_eq, ?_, .inl ⟨rfl, hwritten.last hblanks hu⟩⟩
    rw [hu, List.length_append] at hlt
    exact Nat.lt_of_le_of_lt (Nat.le_add_left _ _) hlt
  · refine ⟨true, rfl, fun hop => ?_⟩
    obtain ⟨hwritten, -⟩ := hn hs ha hop
    have heof : u.eof.kind = .eof := by rw [hwritten.eof_eq, hs]
    obtain ⟨before, ts, hbefore, hu, rfl⟩ := skipNewlines_inv heof hv
    obtain ⟨hk, us, hus, rfl⟩ := acceptIf_inv_some
      (show _ = false by rw [Reading.eof_moved, heof]; rfl) hcomma
    obtain ⟨behind, rest, hbehind, hrest, rfl⟩ :=
      skipNewlines_inv (s := (u.moved ts id).moved us id) heof hw
    obtain rfl : ts = comma :: us := hus
    obtain rfl : us = behind ++ rest := hrest
    have hlt := hwritten.length_lt
    refine ⟨hwritten.eof_eq, ?_, .inr ⟨rfl, fun ts s'' hts =>
      hwritten.more hbefore (of_decide_eq_true hk) hbehind hu hts⟩⟩
    rw [hu] at hlt
    simp only [Reading.tokens_moved, List.length_cons, List.length_append] at hlt ⊢
    omega

/-- What was read stays among the values of a list. -/
lemma subset_of_iterate_commaStep
    (h : iterate (commaStep close skipNewlines item) r s = .ok r' s') : r.1 ⊆ r'.1 := by
  refine iterate_induction (I := fun a _ => r.1 ⊆ a.1) ?_ (List.Subset.refl _) h
  rintro ⟨read, goesOn⟩ s (_ | a) s' hsub hstep
  · exact hsub
  · obtain ⟨-, a, u, v, -, -, ⟨rfl, -⟩ | ⟨comma, w, rfl, -⟩⟩ := commaStep_inv hstep
    · exact List.subset_cons_of_subset _ hsub
    · exact List.subset_cons_of_subset _ hsub

/-- All values that the loop reads are written one after the other. -/
lemma iterate_commaStep_explained (hn : Explains n.expression operatorLayers)
    (hs : s.eof.kind = .eof)
    (h : iterate (commaStep close skipNewlines n.expression) r s = .ok r' s')
    (hops : ∀ t ∈ r'.1, t.IsOperation) :
    (r.2 = false → r' = r ∧ s' = s) ∧
      (r.2 = true → ∃ ts, r'.1 = ts.reverse ++ r.1 ∧ ValuesWritten close ts s s') := by
  induction r, s using iterate.induct (commaStep close skipNewlines n.expression) with
  | case1 r s e u hstep =>
    rw [iterate_of_error hstep] at h
    cases h
  | case2 r s u hstep =>
    rw [iterate_of_none hstep] at h
    cases h
    obtain ⟨rfl, hclose⟩ := commaStep_inv_none hstep
    exact ⟨fun _ => ⟨rfl, rfl⟩, fun hgoes => ⟨[], rfl, .empty (hclose hgoes)⟩⟩
  | case3 r s c u hstep hlt ih =>
    rw [iterate_of_some hstep hlt] at h
    obtain ⟨hgoes, a, more, rfl, ha⟩ := commaStep_explained hn hs hstep
    obtain ⟨heof, -, hwritten⟩ := ha (hops a (subset_of_iterate_commaStep h (.head _)))
    obtain ⟨hlast, hmore⟩ := ih (by rw [heof, hs]) h
    refine ⟨fun hstop => absurd (hgoes.symm.trans hstop) (by simp), fun _ => ?_⟩
    rcases hwritten with ⟨rfl, hwritten⟩ | ⟨rfl, hwritten⟩
    · obtain ⟨rfl, rfl⟩ := hlast rfl
      exact ⟨[a], rfl, hwritten⟩
    · obtain ⟨ts, hr, hts⟩ := hmore rfl
      exact ⟨a :: ts, by rw [hr]; simp, hwritten ts s' hts⟩
  | case4 r s c u hstep hlt =>
    rw [iterate_of_still hstep hlt] at h
    cases h
    obtain ⟨-, a, more, rfl, ha⟩ := commaStep_explained hn hs hstep
    exact absurd (ha (hops a (.head _))).2.1 hlt

lemma commaList_explained {ts : List NumberedTree} (hn : Explains n.expression operatorLayers)
    (hs : s.eof.kind = .eof) (h : commaList close skipNewlines n.expression s = .ok ts s')
    (hops : ∀ t ∈ ts, t.IsOperation) : ValuesWritten close ts s s' := by
  rw [commaList_eq] at h
  obtain ⟨r, u, hloop, h⟩ := bind_eq_ok.1 h
  obtain ⟨rfl, rfl⟩ := pure_eq_ok.1 h
  obtain ⟨ts, hr, hts⟩ := (iterate_commaStep_explained hn hs hloop
    fun t ht => hops t (List.mem_reverse.2 ht)).2 rfl
  rw [hr]
  simpa using hts

end Values

/-! ### Operands -/

/-- Whatever `m` answers is such that `P` holds. -/
def Gives {α : Type} (P : α → Prop) (m : Parser α) : Prop :=
  ∀ ⦃s : Reading⦄ ⦃a : α⦄ ⦃s' : Reading⦄, m s = .ok a s' → P a

namespace Gives

variable {α β : Type} {P : β → Prop}

lemma bind {m : Parser α} {f : α → Parser β} (h : ∀ a, Gives P (f a)) : Gives P (m >>= f) := by
  intro s b s' hb
  obtain ⟨a, u, -, hb⟩ := bind_eq_ok.1 hb
  exact h a hb

lemma map {m : Parser α} {g : α → β} (h : Gives (fun a => P (g a)) m) : Gives P (g <$> m) := by
  intro s b s' hb
  obtain ⟨a, ha, rfl⟩ := map_eq_ok.1 hb
  exact h ha

lemma node {P : NumberedTree → Prop} {form : Form NumberedTree} {range : Option Range}
    (h : ∀ id, P ⟨id, form.kind, range, form.children⟩) : Gives P (Parser.node form range) := by
  intro s t s' ht
  obtain ⟨rfl, -⟩ := node_eq_ok.1 ht
  exact h s.next

end Gives

/-- No literal in brackets, no function and no constructor is an operation. -/
lemma not_isOperation_arrayRest (opening : Token) :
    Gives (fun t => t.kind.isOperation = false) (arrayRest n opening) :=
  .bind fun _ => .bind fun _ => .bind fun _ => .node fun _ => rfl

lemma not_isOperation_recordRest (opening : Token) :
    Gives (fun t => t.kind.isOperation = false) (recordRest n opening) :=
  .bind fun _ => .bind fun _ => .bind fun _ => .node fun _ => rfl

lemma not_isOperation_functionRest (keyword : Token) :
    Gives (fun t => t.kind.isOperation = false) (functionRest n keyword) :=
  .bind fun _ => .bind fun _ => .bind fun _ => .bind fun _ => .bind fun _ => .bind fun _ =>
    .bind fun _ => .node fun _ => rfl

lemma not_isOperation_newRest (keyword : Token) :
    Gives (fun t => t.kind.isOperation = false) (newRest n keyword) :=
  .bind fun _ => .bind fun _ => .bind fun _ => .bind fun _ => .node fun _ => rfl

/-- An accessor puts the object in front of everything else in the new node, if there is one. -/
lemma accessor_inv {o : Option NumberedTree} (h : accessor n object s = .ok o s') :
    (o = none ∧ s' = s ∧ isAccessor s.current.kind = false) ∨
      ∃ t, o = some t ∧ object ∈ t.children := by
  have hnode (form : Form NumberedTree) (range : Option Range) (hmem : object ∈ form.children) :
      Gives (fun o => ∃ t, o = some t ∧ object ∈ t.children) (some <$> node form range) :=
    .map (.node fun _ => ⟨_, rfl, hmem⟩)
  have hindex (question : Option Token) (opening : Token) :
      Gives (fun o => ∃ t, o = some t ∧ object ∈ t.children)
        (some <$> indexRest n object question opening) :=
    .map (.bind fun _ => .bind fun _ => .bind fun _ => .node fun _ => ⟨_, rfl, .head _⟩)
  have hdotted (dot : Token) : Gives (fun o => ∃ t, o = some t ∧ object ∈ t.children)
      (do some <$> dottedAccess object dot (← expectName .property)) :=
    .bind fun _ => hnode _ _ (.head _)
  obtain ⟨k, u, hkind, h⟩ := bind_eq_ok.1 h
  obtain ⟨hk, rfl⟩ := kind_eq_ok.1 hkind
  rw [hk]
  cases k with
  | punctuator p =>
    cases p with
    | dot =>
      obtain ⟨dot, u, -, h⟩ := bind_eq_ok.1 h
      exact .inr (hdotted dot h)
    | questionDot =>
      obtain ⟨dot, u, -, h⟩ := bind_eq_ok.1 h
      obtain ⟨o, v, -, h⟩ := bind_eq_ok.1 h
      cases o with
      | none => exact .inr (hdotted dot h)
      | some opening => exact .inr (hindex _ _ h)
    | openSquare | questionSquare =>
      obtain ⟨opening, u, -, h⟩ := bind_eq_ok.1 h
      exact .inr (hindex _ _ h)
    | openParen =>
      obtain ⟨opening, u, -, h⟩ := bind_eq_ok.1 h
      obtain ⟨r, v, -, h⟩ := bind_eq_ok.1 h
      exact .inr (hnode _ _ (.head _) h)
    | atDot =>
      obtain ⟨operator, u, -, h⟩ := bind_eq_ok.1 h
      obtain ⟨method, v, -, h⟩ := bind_eq_ok.1 h
      obtain ⟨opening, w, -, h⟩ := bind_eq_ok.1 h
      obtain ⟨r, x, -, h⟩ := bind_eq_ok.1 h
      exact .inr (hnode _ _ (.head _) h)
    | _ =>
      obtain ⟨ho, hs⟩ := pure_eq_ok.1 h
      exact .inl ⟨ho.symm, hs.symm, rfl⟩
  | _ =>
    obtain ⟨ho, hs⟩ := pure_eq_ok.1 h
    exact .inl ⟨ho.symm, hs.symm, rfl⟩

section Accessors

variable {dot property opening close : Token} {blanks ts rest : List Token} {u : Reading}
  {vs : List NumberedTree}

lemma Written.dotted (h : Written [] object s₀ s) (hdot : dot.kind = .punctuator .dot)
    (hproperty : property.kind.isNameLike = true) (hs : s.tokens = dot :: property :: rest) :
    Written [] ⟨s.next, .dottedGet dot property.asIdentifier,
      Range.bounding [object.range, some property.asIdentifier.range], [object]⟩ s₀
      (s.moved rest fun a => a.alloc (.dottedGet object.id dot property.asIdentifier)
        (Range.bounding [object.range, some property.asIdentifier.range])) := by
  obtain ⟨e, us, he, htokens, rfl, rfl⟩ := h
  obtain rfl : us = dot :: property :: rest := hs
  refine ⟨.dotted e dot property, rest, .dotted he hdot hproperty, ?_, ?_, rfl⟩
  · rw [htokens, Expression.tokens]
    simp
  · rw [Reading.next_moved_store, Expression.tree]

lemma Written.indexed (h : Written [] object s₀ s)
    (hopening : opening.kind = .punctuator .openSquare)
    (hblanks : ∀ t ∈ blanks, isBlank t.kind = true) (hs : s.tokens = opening :: (blanks ++ ts))
    (hvs : ValuesWritten (fun _ => false) vs (s.moved ts id) u)
    (hclose : close.kind = .punctuator .closeSquare) (hu : u.tokens = close :: rest) :
    Written [] ⟨u.next, .indexedGet none opening close,
      Range.bounding [object.range, some close.range], object :: vs⟩ s₀
      (u.moved rest fun a => a.alloc (.indexedGet object.id none opening (vs.map Tree.id) close)
        (Range.bounding [object.range, some close.range])) := by
  obtain ⟨e, us, he, htokens, rfl, rfl⟩ := h
  obtain ⟨vs, us', hmarked, hvs, hend, htokens', rfl, rfl⟩ := hvs
  obtain rfl : us = opening :: (blanks ++ ts) := hs
  obtain rfl : us' = close :: rest := hu
  obtain rfl : ts = Expression.tokensAll vs ++ close :: rest := htokens'
  have hend : vs.endsInValue = true := by
    by_contra h
    exact absurd (hend (by simpa using h)) (by simp)
  refine ⟨.indexed e opening blanks vs close, rest,
    .indexed he hopening hblanks hmarked hend hvs hclose, ?_, ?_, ?_⟩
  · rw [htokens, Expression.tokens]
    simp
  · simp [Expression.tree, Reading.next]
  · simp [Expression.store, Expression.tree, Reading.next, Reading.moved]

lemma Written.call {closes : TokenKind → Bool} (h : Written [] object s₀ s)
    (hopening : opening.kind = .punctuator .openParen)
    (hblanks : ∀ t ∈ blanks, isBlank t.kind = true) (hs : s.tokens = opening :: (blanks ++ ts))
    (hvs : ValuesWritten closes vs (s.moved ts id) u)
    (hclose : close.kind = .punctuator .closeParen) (hu : u.tokens = close :: rest) :
    Written [] ⟨u.next, .call, Range.bounding [object.range, some close.range], object :: vs⟩ s₀
      (u.moved rest fun a => a.alloc (.call object.id (vs.map Tree.id))
        (Range.bounding [object.range, some close.range])) := by
  obtain ⟨e, us, he, htokens, rfl, rfl⟩ := h
  obtain ⟨vs, us', hmarked, hvs, -, htokens', rfl, rfl⟩ := hvs
  obtain rfl : us = opening :: (blanks ++ ts) := hs
  obtain rfl : us' = close :: rest := hu
  obtain rfl : ts = Expression.tokensAll vs ++ close :: rest := htokens'
  refine ⟨.call e opening blanks vs close, rest,
    .call he hopening hblanks hmarked hvs hclose, ?_, ?_, ?_⟩
  · rw [htokens, Expression.tokens]
    simp
  · simp [Expression.tree, Reading.next]
  · simp [Expression.store, Expression.tree, Reading.next, Reading.moved]

/-- What was read behind an opening bracket is blanks, values and the closing bracket. -/
lemma values_explained {closes : TokenKind → Bool} {k : TokenKind} {a : Unit} {v w : Reading}
    (hn : Explains n.expression operatorLayers) (hs : s.eof.kind = .eof) (hk : k ≠ .eof)
    (hskip : skipNewlines s = .ok a v)
    (hlist : commaList closes skipNewlines n.expression v = .ok vs u)
    (hclose : expect k u = .ok close w) (hops : ∀ t ∈ vs, t.IsOperation) :
    ∃ blanks ts rest, (∀ t ∈ blanks, isBlank t.kind = true) ∧ s.tokens = blanks ++ ts ∧
      ValuesWritten closes vs (s.moved ts id) u ∧ close.kind = k ∧ u.tokens = close :: rest ∧
      w = u.moved rest id := by
  obtain ⟨blanks, ts, hblanks, hts, rfl⟩ := skipNewlines_inv hs hskip
  have hvs := commaList_explained (s := s.moved ts id) hn hs hlist hops
  obtain ⟨hclose, rest, hrest, hw⟩ := expect_inv (by rw [hvs.eof_eq]; exact hs) hk hclose
  exact ⟨blanks, ts, rest, hblanks, hts, hvs, hclose, hrest, hw⟩

lemma ValuesWritten.length_lt_of_brackets {closes : TokenKind → Bool}
    (h : ValuesWritten closes vs (s.moved ts id) u) (hs : s.tokens = opening :: (blanks ++ ts))
    (hu : u.tokens = close :: rest) : rest.length < s.tokens.length := by
  obtain ⟨vs, us, -, -, -, hts, -, rfl⟩ := h
  obtain rfl : us = close :: rest := hu
  obtain rfl : ts = Expression.tokensAll vs ++ close :: rest := hts
  rw [hs]
  exact length_lt_of_brackets _

lemma kind_indexRest {question : Option Token} :
    Gives (fun t => ∃ close, t.kind = .indexedGet question opening close)
      (indexRest n object question opening) :=
  .bind fun _ => .bind fun _ => .bind fun close => .node fun _ => ⟨close, rfl⟩

lemma Written.of_dot (hw : Written [] object s₀ s) (hs : s.eof.kind = .eof)
    (hk : s.current.kind = .punctuator .dot)
    (h : (do
      let dot ← advance
      some <$> dottedAccess object dot (← expectName .property)) s = .ok (some t) s') :
    Written [] t s₀ s' ∧ s'.tokens.length < s.tokens.length := by
  obtain ⟨dot, u, hadvance, h⟩ := bind_eq_ok.1 h
  obtain ⟨name, v, hname, h⟩ := bind_eq_ok.1 h
  obtain ⟨x, hx, hxt⟩ := map_eq_ok.1 h
  cases hxt
  obtain ⟨rfl, rfl⟩ := node_eq_ok.1 hx
  obtain ⟨hdot, ts, hts, rfl⟩ := advance_inv hs hk (by nofun) hadvance
  obtain ⟨property, rest, rfl, hproperty, hrest, rfl⟩ :=
    expectName_inv (s := s.moved ts id) hs hname
  obtain rfl : ts = property :: rest := hrest
  refine ⟨hw.dotted hdot hproperty hts, ?_⟩
  rw [hts]
  exact Nat.lt_succ_of_lt (Nat.lt_succ_self _)

/-- An access with a question mark is no operation. -/
lemma not_isOperation_questionDot (hs : s.eof.kind = .eof)
    (hk : s.current.kind = .punctuator .questionDot)
    (h : accessor n object s = .ok (some t) s') : t.kind.isOperation = false := by
  obtain ⟨k, u, hkind, h⟩ := bind_eq_ok.1 h
  obtain ⟨rfl, rfl⟩ := kind_eq_ok.1 hkind
  rw [hk] at h
  obtain ⟨dot, u, hadvance, h⟩ := bind_eq_ok.1 h
  obtain ⟨hdot, -⟩ := advance_inv hs hk (by nofun) hadvance
  obtain ⟨o, v, -, h⟩ := bind_eq_ok.1 h
  cases o with
  | none =>
    obtain ⟨name, w, -, h⟩ := bind_eq_ok.1 h
    obtain ⟨x, hx, hxt⟩ := map_eq_ok.1 h
    cases hxt
    obtain ⟨rfl, -⟩ := node_eq_ok.1 hx
    exact decide_eq_false (by rw [hdot]; nofun)
  | some opening =>
    obtain ⟨x, hx, hxt⟩ := map_eq_ok.1 h
    cases hxt
    obtain ⟨close, hkind⟩ := kind_indexRest hx
    rw [hkind]
    rfl

lemma not_isOperation_questionSquare (hs : s.eof.kind = .eof)
    (hk : s.current.kind = .punctuator .questionSquare)
    (h : accessor n object s = .ok (some t) s') : t.kind.isOperation = false := by
  obtain ⟨k, u, hkind, h⟩ := bind_eq_ok.1 h
  obtain ⟨rfl, rfl⟩ := kind_eq_ok.1 hkind
  rw [hk] at h
  obtain ⟨opening, u, hadvance, h⟩ := bind_eq_ok.1 h
  obtain ⟨hopening, -⟩ := advance_inv hs hk (by nofun) hadvance
  obtain ⟨x, hx, hxt⟩ := map_eq_ok.1 h
  cases hxt
  obtain ⟨close, hkind⟩ := kind_indexRest hx
  rw [hkind]
  exact decide_eq_false (by rw [hopening]; nofun)

lemma not_isOperation_atDot (hk : s.current.kind = .punctuator .atDot)
    (h : accessor n object s = .ok (some t) s') : t.kind.isOperation = false := by
  obtain ⟨k, u, hkind, h⟩ := bind_eq_ok.1 h
  obtain ⟨rfl, rfl⟩ := kind_eq_ok.1 hkind
  rw [hk] at h
  obtain ⟨operator, u, -, h⟩ := bind_eq_ok.1 h
  obtain ⟨method, v, -, h⟩ := bind_eq_ok.1 h
  obtain ⟨-, w, -, h⟩ := bind_eq_ok.1 h
  obtain ⟨⟨values, close⟩, x, -, h⟩ := bind_eq_ok.1 h
  obtain ⟨t, ht, hsome⟩ := map_eq_ok.1 h
  cases hsome
  obtain ⟨rfl, -⟩ := node_eq_ok.1 ht
  rfl

lemma Written.of_openSquare (hn : Explains n.expression operatorLayers)
    (hw : Written [] object s₀ s) (hs : s.eof.kind = .eof)
    (hk : s.current.kind = .punctuator .openSquare)
    (h : (do some <$> indexRest n object none (← advance)) s = .ok (some t) s')
    (ht : t.IsOperation) : Written [] t s₀ s' ∧ s'.tokens.length < s.tokens.length := by
  obtain ⟨opening, u, hadvance, h⟩ := bind_eq_ok.1 h
  obtain ⟨hopening, ts, hts, rfl⟩ := advance_inv hs hk (by nofun) hadvance
  obtain ⟨x, hx, hxt⟩ := map_eq_ok.1 h
  cases hxt
  obtain ⟨_, v, hskip, hx⟩ := bind_eq_ok.1 hx
  obtain ⟨vs, u, hlist, hx⟩ := bind_eq_ok.1 hx
  obtain ⟨close, w, hexpect, hx⟩ := bind_eq_ok.1 hx
  obtain ⟨rfl, rfl⟩ := node_eq_ok.1 hx
  obtain ⟨blanks, us, rest, hblanks, hus, hvs, hclose, hrest, rfl⟩ := values_explained
    (s := s.moved ts id) hn hs (by nofun) hskip hlist hexpect fun t h => ht.child (.tail _ h)
  obtain rfl : ts = blanks ++ us := hus
  have hindexed := hw.indexed hopening hblanks hts hvs hclose hrest
  exact ⟨hindexed, hvs.length_lt_of_brackets (s := s) hts hrest⟩

lemma Written.of_openParen (hn : Explains n.expression operatorLayers)
    (hw : Written [] object s₀ s) (hs : s.eof.kind = .eof)
    (hk : s.current.kind = .punctuator .openParen)
    (h : (do
      let _ ← advance
      let (values, close) ← arguments n
      let range := Range.bounding [object.range, some close.range]
      some <$> node (.call object values) range) s = .ok (some t) s')
    (ht : t.IsOperation) : Written [] t s₀ s' ∧ s'.tokens.length < s.tokens.length := by
  obtain ⟨opening, u, hadvance, h⟩ := bind_eq_ok.1 h
  obtain ⟨hopening, ts, hts, rfl⟩ := advance_inv hs hk (by nofun) hadvance
  obtain ⟨r, v, hr, h⟩ := bind_eq_ok.1 h
  obtain ⟨x, hx, hxt⟩ := map_eq_ok.1 h
  cases hxt
  obtain ⟨rfl, rfl⟩ := node_eq_ok.1 hx
  obtain ⟨_, w, hskip, hr⟩ := bind_eq_ok.1 hr
  obtain ⟨vs, u, hlist, hr⟩ := bind_eq_ok.1 hr
  obtain ⟨close, x, hexpect, hr⟩ := bind_eq_ok.1 hr
  obtain ⟨rfl, rfl⟩ := pure_eq_ok.1 hr
  obtain ⟨blanks, us, rest, hblanks, hus, hvs, hclose, hrest, rfl⟩ := values_explained
    (s := s.moved ts id) hn hs (by nofun) hskip hlist hexpect fun t h => ht.child (.tail _ h)
  obtain rfl : ts = blanks ++ us := hus
  have hcall := hw.call hopening hblanks hts hvs hclose hrest
  exact ⟨hcall, hvs.length_lt_of_brackets (s := s) hts hrest⟩

/-- An operand with one more accessor is written if the operand was. -/
lemma Written.accessor (hn : Explains n.expression operatorLayers) (hs : s.eof.kind = .eof)
    (hw : Written [] object s₀ s) (h : accessor n object s = .ok (some t) s')
    (ht : t.IsOperation) : Written [] t s₀ s' ∧ s'.tokens.length < s.tokens.length := by
  have hno (hfalse : t.kind.isOperation = false) :
      Written [] t s₀ s' ∧ s'.tokens.length < s.tokens.length := by
    rw [ht.kind] at hfalse
    cases hfalse
  obtain ⟨k, u, hkind, hrest⟩ := bind_eq_ok.1 h
  obtain ⟨hk, rfl⟩ := kind_eq_ok.1 hkind
  cases k with
  | punctuator p =>
    cases p with
    | dot => exact hw.of_dot hs hk hrest
    | questionDot => exact hno (not_isOperation_questionDot hs hk h)
    | openSquare => exact hw.of_openSquare hn hs hk hrest ht
    | questionSquare => exact hno (not_isOperation_questionSquare hs hk h)
    | openParen => exact hw.of_openParen hn hs hk hrest ht
    | atDot => exact hno (not_isOperation_atDot hk h)
    | _ => cases (pure_eq_ok.1 hrest).1
  | _ => cases (pure_eq_ok.1 hrest).1

end Accessors

section Primary

variable {k : TokenKind}

lemma written_name (hs : s.eof.kind = .eof) (hk : s.current.kind = .identifier)
    (h : (do
      let token ← advance
      leaf (.name token) token) s = .ok t s') : Written [] t s s' := by
  obtain ⟨token, u, hadvance, h⟩ := bind_eq_ok.1 h
  obtain ⟨hk, ts, hts, rfl⟩ := advance_inv hs hk (by nofun) hadvance
  obtain ⟨rfl, rfl⟩ := node_eq_ok.1 h
  exact ⟨.name token, ts, .name hk, hts, rfl, rfl⟩

lemma written_literal (hs : s.eof.kind = .eof) (hk : s.current.kind = k) (hl : k.isLiteral = true)
    (h : (do
      let token ← advance
      leaf (.literal token) token) s = .ok t s') : Written [] t s s' := by
  obtain ⟨token, u, hadvance, h⟩ := bind_eq_ok.1 h
  obtain ⟨hk, ts, hts, rfl⟩ := advance_inv hs hk (by rintro rfl; cases hl) hadvance
  obtain ⟨rfl, rfl⟩ := node_eq_ok.1 h
  exact ⟨.literal token, ts, .literal (by rw [hk, hl]), hts, rfl, rfl⟩

lemma written_grouping (hn : Explains n.expression operatorLayers) (hs : s.eof.kind = .eof)
    (hk : s.current.kind = .punctuator .openParen)
    (h : (do groupingRest n (← advance)) s = .ok t s') (ht : t.IsOperation) :
    Written [] t s s' := by
  obtain ⟨opening, u, hadvance, h⟩ := bind_eq_ok.1 h
  obtain ⟨hopening, ts, hts, rfl⟩ := advance_inv hs hk (by nofun) hadvance
  obtain ⟨_, v, hskip, h⟩ := bind_eq_ok.1 h
  obtain ⟨before, us, hbefore, hus, rfl⟩ := skipNewlines_inv (s := s.moved ts id) hs hskip
  obtain ⟨inner, w, hinner, h⟩ := bind_eq_ok.1 h
  obtain ⟨_, x, hskip', h⟩ := bind_eq_ok.1 h
  obtain ⟨close, y, hexpect, h⟩ := bind_eq_ok.1 h
  obtain ⟨rfl, rfl⟩ := node_eq_ok.1 h
  obtain ⟨⟨e, rest, he, hrest, rfl, rfl⟩, -⟩ :=
    hn (s := (s.moved ts id).moved us id) hs hinner (ht.child (.head _))
  obtain ⟨behind, vs, hbehind, hvs, rfl⟩ :=
    skipNewlines_inv (s := ((s.moved ts id).moved us id).moved rest e.store) hs hskip'
  obtain ⟨hclose, ws, hws, rfl⟩ := expect_inv
    (s := (((s.moved ts id).moved us id).moved rest e.store).moved vs id) hs (by nofun) hexpect
  obtain rfl : ts = before ++ us := hus
  obtain rfl : us = e.tokens ++ rest := hrest
  obtain rfl : rest = behind ++ vs := hvs
  obtain rfl : vs = close :: ws := hws
  refine ⟨.grouping opening before e behind close, ws,
    .grouping hopening hbefore he hbehind hclose, ?_, ?_, rfl⟩
  · rw [hts, Expression.tokens]
    simp
  · simp [Expression.tree, Reading.next, Form.kind, Form.children]

/-- An operand that is an operation is a name, a literal or an expression in parentheses. -/
lemma primary_explained (hn : Explains n.expression operatorLayers) (hs : s.eof.kind = .eof)
    (h : primary n s = .ok t s') (ht : t.IsOperation) : Written [] t s s' := by
  have hno {m : Parser NumberedTree} {u : Reading} (hm : m u = .ok t s')
      (hgives : Gives (fun t => t.kind.isOperation = false) m) : Written [] t s s' := by
    have hfalse : t.kind.isOperation = false := hgives hm
    rw [ht.kind] at hfalse
    cases hfalse
  obtain ⟨k, u, hkind, h⟩ := bind_eq_ok.1 h
  obtain ⟨hk, rfl⟩ := kind_eq_ok.1 hkind
  cases k with
  | identifier => exact written_name hs hk h
  | literal => exact written_literal hs hk rfl h
  | keyword w =>
    cases w with
    | trueKw | falseKw | invalidKw => exact written_literal hs hk rfl h
    | subKw | functionKw => exact hno h (.bind not_isOperation_functionRest)
    | newKw => exact hno h (.bind not_isOperation_newRest)
    | _ => exact absurd h not_refuseFor_eq_ok
  | punctuator p =>
    cases p with
    | openParen => exact written_grouping hn hs hk h ht
    | openSquare => exact hno h (.bind not_isOperation_arrayRest)
    | openCurly => exact hno h (.bind not_isOperation_recordRest)
    | _ => exact absurd h not_refuseFor_eq_ok
  | _ => exact absurd h not_refuseFor_eq_ok

end Primary

lemma explains_accessed (hn : Explains n.expression operatorLayers) :
    Explains (accessed n) [] := by
  intro s₀ t s' hs h ht
  obtain ⟨first, u, hfirst, h⟩ := bind_eq_ok.1 h
  refine iterate_explained (I := fun a s => Written [] a s₀ s)
    (J := fun s => isAccessor s.current.kind = false) ?_ ?_ ?_ ?_ h ht
  · intro a s b s' hb
    rcases accessor_inv hb with ⟨hnone, -⟩ | ⟨t, hsome, hmem⟩
    · cases hnone
    · cases hsome
      exact hmem
  · intro a s b s' ha hb hop
    exact ha.accessor hn (by rw [ha.eof_eq, hs]) hb hop
  · intro a s s' _ hnone
    rcases accessor_inv hnone with ⟨-, hs⟩ | ⟨t, hsome, -⟩
    · exact hs
    · cases hsome
  · exact fun hop => primary_explained hn hs hfirst hop

/-- Every layer explains what fits it if the tighter ones do. -/
theorem explains_layered (hn : Explains n.expression operatorLayers)
    (hls : areDistinct ls = true) : Explains (layered n ls) ls := by
  induction ls with
  | nil => exact explains_accessed hn
  | cons l ls ih =>
    cases l with
    | between operators =>
      obtain ⟨hops, hls⟩ := Bool.and_eq_true_iff.1 hls
      refine explains_binaryLayer (ih hls) fun hk => ?_
      simpa using (Bool.and_eq_true_iff.1 (List.all_eq_true.1 hops _ hk)).1
    | before operators =>
      obtain ⟨hops, hls⟩ := Bool.and_eq_true_iff.1 hls
      refine explains_unaryLayer (ih hls) fun hk => ?_
      simpa using (Bool.and_eq_true_iff.1 (List.all_eq_true.1 hops _ hk)).1

/-- Every tree of operations that is read comes from an expression. -/
theorem explains_expressionWithin (depth : Nat) :
    Explains (expressionWithin depth) operatorLayers := by
  induction depth with
  | zero => exact fun _ _ _ _ h => absurd h not_refuseFor_eq_ok
  | succ depth ih =>
    rw [expressionWithin, expression_eq_layered]
    exact explains_layered ih areDistinct_operatorLayers

/--
In a stream of less than `depth` tokens, what is read as a tree of operations is exactly what the
grammar says: the tokens of an expression in which every operand fits its place, up to something
that does not continue it, become the tree of this expression, and no other tokens become a tree of
this form.
-/
theorem expressionWithin_eq_ok_iff {depth : Nat} (hs : s.tokens.length < depth)
    (heof : s.eof.kind = .eof) :
    expressionWithin depth s = .ok t s' ∧ t.IsOperation ↔
      ∃ (e : Expression) (rest : List Token), e.Fits operatorLayers ∧
        s.tokens = e.tokens ++ rest ∧
        continues operatorLayers (s.moved rest e.store).current.kind = false ∧
        t = e.tree s.next ∧ s' = s.moved rest e.store := by
  constructor
  · rintro ⟨h, ht⟩
    obtain ⟨⟨e, rest, he, htokens, htree, rfl⟩, hc⟩ :=
      explains_expressionWithin depth heof h ht
    exact ⟨e, rest, he, htokens, hc, htree, rfl⟩
  · rintro ⟨e, rest, he, htokens, hc, rfl, rfl⟩
    exact ⟨recovers_expressionWithin depth he heof hs htokens hc, he.isOperation_tree _⟩

/-- In `a - b(c,)`, with a comma behind the only argument. -/
theorem expressionWithin_difference :
    let token (kind : TokenKind) (text : String) (column : Nat) : Token :=
      ⟨kind, text, ⟨⟨0, column⟩, ⟨0, column + 1⟩⟩⟩
    let a := token .identifier "a" 0
    let minus := token (.punctuator .minus) "-" 2
    let b := token .identifier "b" 4
    let opening := token (.punctuator .openParen) "(" 5
    let c := token .identifier "c" 6
    let comma := token (.punctuator .comma) "," 7
    let close := token (.punctuator .closeParen) ")" 8
    let eof := token .eof "" 9
    let e : Expression := .binary (.name a) minus
      (.call (.name b) opening [] (.more (.name c) [] comma [] .empty) close)
    expressionWithin 8 ⟨[a, minus, b, opening, c, comma, close], eof, .start, .empty⟩ =
      .ok (e.tree 1) ⟨[], eof, e.store .start, .empty⟩ := by
  intro token a minus b opening c comma close eof e
  have hcall : Expression.Fits [] (.call (.name b) opening []
      (.more (.name c) [] comma [] .empty) close) := by
    refine .call (.name rfl) rfl nofun ⟨nofun, rfl, nofun, trivial⟩ ?_ rfl
    refine List.forall_mem_singleton.2 ?_
    iterate 9 refine .tighter ?_
    exact .name rfl
  have hfits : e.Fits operatorLayers := by
    iterate 5 refine .tighter ?_
    refine .binary ?_ (.tail _ (.head _)) ?_
    · iterate 4 refine .tighter ?_
      exact .name rfl
    · iterate 3 refine .tighter ?_
      exact hcall
  exact ((expressionWithin_eq_ok_iff (by decide) rfl).2 ⟨e, [], hfits, rfl, rfl, rfl, rfl⟩).1

end Parser

end BrighterCheck
