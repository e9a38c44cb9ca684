import BrighterCheck.Proofs.Tree.Shape
import Mathlib.Order.MinMax

/-!
# Nodes that are aligned with tokens

Ranges of nodes are merged from those of the tokens that the nodes were read from, so they start
where a token starts and end where a token ends. What holds of the ranges of all tokens and is kept
by merging is proved of every node and of the tokens that it holds, by induction over what was read.
-/

namespace BrighterCheck

open BrighterCheck.Parser Item Range

namespace Range

/-- A range that is not empty, starts where a token starts and ends where a token ends. -/
structure Aligned (ts : List Token) (r : Range) : Prop where
  start : ∃ t ∈ ts, t.range.start = r.start
  finish : ∃ t ∈ ts, t.range.finish = r.finish
  start_lt : r.start < r.finish

lemma mergeClosed_aligned (ts : List Token) : MergeClosed (Aligned ts) := by
  intro r s hr hs
  refine ⟨?_, ?_, (min_le_left _ _).trans_lt (hr.start_lt.trans_le (le_max_left _ _))⟩
  · rcases min_choice r.start s.start with h | h
    · exact hr.start.imp fun t ht => ⟨ht.1, ht.2.trans h.symm⟩
    · exact hs.start.imp fun t ht => ⟨ht.1, ht.2.trans h.symm⟩
  · rcases max_choice r.finish s.finish with h | h
    · exact hr.finish.imp fun t ht => ⟨ht.1, ht.2.trans h.symm⟩
    · exact hs.finish.imp fun t ht => ⟨ht.1, ht.2.trans h.symm⟩

end Range

/-- The tokens that a node holds, but for the parameters that an interface announces. -/
def NodeKind.tokens : NodeKind → List Token
  | .body | .expressionStatement | .grouping | .call | .array | .record => []
  | .comment t | .increment t | .print t | .ifStatement t | .whileLoop t | .forLoop t
  | .returnStatement t | .tryStatement t | .throwStatement t | .stopStatement t | .endStatement t
  | .function t | .namespaceDeclaration t | .enumMember t | .conditionalError t
  | .conditionalBlock t | .literal t | .name t | .unary t | .binary t | .new t | .recordMember t =>
    [t]
  | .assignment t u | .counter t u | .forEachLoop t u | .dim t u | .enumDeclaration t u
  | .constDeclaration t u | .conditionalConst t u | .typecast t u | .aliasDeclaration t u
  | .dottedGet t u | .callfunc t u => [t, u]
  | .dottedSet t u v => [t, u, v]
  | .exitLoop t o | .continueLoop t o | .catchClause t o | .interfaceField t o | .library t o
  | .importStatement t o | .functionExpression t o | .parameter t o => t :: o.toList
  | .classDeclaration t u o | .interfaceDeclaration t u o | .interfaceMethod t u _ o =>
    t :: u :: o.toList
  | .indexedGet o t u => o.toList ++ [t, u]
  | .indexedSet o t u v => o.toList ++ [t, u, v]
  | .method o p t => o.toList ++ p.toList ++ [t]
  | .field o t p => o.toList ++ t :: p.toList

variable {P : Range → Prop} {c : Category} {kind : NodeKind} {range : Option Range}
  {items : List Item} {t : NumberedTree}

/-- A node and its tokens lie in `P`, and only a body without statements has no range. -/
structure Tree.IsPlaced (P : Range → Prop) (t : NumberedTree) : Prop where
  range : Lies P t.range
  tokens : LieAll P (tokens t.kind.tokens)
  range_eq_none : t.range = none ↔ t.kind = .body ∧ t.children = []

namespace Item

lemma tokens_nil : tokens [] = [] := rfl

lemma tokens_cons (k : Token) (ts : List Token) : tokens (k :: ts) = .token k :: tokens ts := rfl

lemma tokens_append (ts us : List Token) : tokens (ts ++ us) = tokens ts ++ tokens us :=
  List.map_append

end Item

/-- The tokens that a node holds are among its items, or its definition has them. -/
lemma Production.lieAll_tokens (h : Production c kind range items) (hi : LieAll P items)
    (hd : ∀ name f, .node (.definition name) f ∈ items → P name.range) :
    LieAll P (tokens kind.tokens) := by
  cases h with
  | @arm form =>
    simp only [lieAll_append, lieAll_cons] at hi
    cases form <;> exact lieAll_cons.2 ⟨hi.1.1, lieAll_nil⟩
  -- The name of a function or of a method stands inside its definition.
  | @function name f => simpa [NodeKind.tokens, tokens_nil, tokens_cons] using hd
  | @method access overriding name f =>
    have hname : P name.range := hd name f (by simp)
    simp_all [NodeKind.tokens, tokens_nil, tokens_cons, tokens_append]
  | @field _ _ _ _ _ _ _ _ _ _ ht =>
    simp only [lieAll_append, lieAll_cons] at hi
    have htype := ht.lies hi.2.2.2.1
    simp_all [NodeKind.tokens, tokens_cons, tokens_append]
  | interfaceField _ ht | parameter _ _ ht | interfaceMethod _ _ _ _ ht | classDeclaration _ _ ht
  | interfaceDeclaration _ _ ht | functionExpression _ _ _ _ _ _ ht =>
    have htype := ht.lies (P := P) (by simp_all)
    simp_all [NodeKind.tokens, tokens_cons]
  | extended h | single h | named h =>
    cases h <;> simp_all [NodeKind.tokens, tokens_nil, tokens_cons]
  | _ => simp_all [NodeKind.tokens, tokens_nil, tokens_cons, tokens_append]

/-- A node that was read in the place of a category, with all that is in it. -/
structure PlacedIn (P : Range → Prop) (c : Category) (t : NumberedTree) : Prop where
  isPlaced : ∀ u ∈ t.preorder, u.IsPlaced P
  definition : ∀ name, c = .definition name → P name.range
  construction : ∀ close, c = .construction close → P close.range
  eq_body : c = .body ↔ t.kind = .body

/-- In the place of a statement stands any node but a body. -/
lemma placedIn_statement (h : ∀ u ∈ t.preorder, u.IsPlaced P) (hk : t.kind ≠ .body) :
    PlacedIn P .statement t where
  isPlaced := h
  definition _ hc := Category.noConfusion hc
  construction _ hc := Category.noConfusion hc
  eq_body := iff_of_false Category.noConfusion hk

lemma PlacedIn.lies (h : PlacedIn P c t) : Lies P t.range :=
  (h.isPlaced t t.self_mem_preorder).range

/-- Only bodies have no range. -/
lemma PlacedIn.range_ne_none (h : PlacedIn P c t) (hc : c ≠ .body) : t.range ≠ none :=
  fun hn => hc (h.eq_body.2
    ((h.isPlaced t t.self_mem_preorder).range_eq_none.1 hn).1)

/-- A node is placed with its items. -/
lemma Production.placedIn (hP : MergeClosed P) {id : Nat} (h : Production c kind range items)
    (hi : LieAll P items) (hn : ∀ d t, .node d t ∈ items → PlacedIn P d t) :
    PlacedIn P c ⟨id, kind, range, nodes items⟩ := by
  have hbody : c = .body ↔ kind = .body := by
    refine ⟨?_, h.eq_body⟩
    rintro rfl
    exact h.body_inv.1
  refine ⟨fun u hu => ?_, ?_, ?_, hbody⟩
  · rcases Tree.mem_preorder.1 hu with rfl | hu
    · refine ⟨h.lies hP hi fun close t ht => (hn _ t ht).construction close rfl,
        h.lieAll_tokens hi fun name f hf => (hn _ f hf).definition name rfl, ?_⟩
      rw [← hbody]
      exact h.range_eq_none_iff fun d t ht => (hn d t ht).range_ne_none
    · obtain ⟨v, hv, hu⟩ := Tree.mem_preorderAll.1 hu
      obtain ⟨d, hmem⟩ := mem_nodes.1 hv
      exact (hn d v hmem).isPlaced u hu
  · rintro name rfl
    exact lies_some.1 (hi _ h.definition_inv.2)
  · rintro close rfl
    obtain ⟨callee, opening, inside, -, rfl⟩ := h.construction_inv
    exact lies_some.1 (hi (.token close) (by simp))

/-- The tokens of an assignment are those of its target and the operator. -/
lemma assignment?_tokens {target value : NumberedTree} {op : Token}
    (h : assignment? target op value = some t) : t.kind.tokens = target.kind.tokens ++ [op] := by
  unfold assignment? at h
  split at h
  case h_1 hk | h_2 hk =>
    cases h
    simp [hk, NodeKind.tokens]
  case h_3 hk =>
    cases h
    simp [hk, NodeKind.tokens]
  case h_4 => cases h

/-- An assignment is placed with its target and its value. -/
lemma placedIn_assignment (hP : MergeClosed P) {target value : NumberedTree} {op : Token}
    (ha : assignment? target op value = some t) (ht : PlacedIn P .expression target)
    (ho : P op.range) (hv : PlacedIn P .expression value) : PlacedIn P .statement t := by
  have htarget := ht.isPlaced target target.self_mem_preorder
  have hrange := assignment?_range ha
  refine placedIn_statement (fun u hu => ?_) (assignment?_kind ha)
  rcases Tree.mem_preorder.1 hu with rfl | hu
  · refine ⟨hrange ▸ lies_pair hP ht.lies hv.lies, ?_, ?_⟩
    · rw [assignment?_tokens ha, tokens_append, lieAll_append]
      exact ⟨htarget.tokens, lieAll_cons.2 ⟨lies_some.2 ho, lieAll_nil⟩⟩
    · obtain ⟨r, hr⟩ := Option.ne_none_iff_exists'.1 (ht.range_ne_none nofun)
      refine iff_of_false ?_ fun h => assignment?_kind ha h.1
      rw [hrange, hr]
      exact bounding_ne_none (.head _)
  · -- Below the assignment are the parts of its target and its value.
    obtain ⟨v, hv', hu⟩ := Tree.mem_preorderAll.1 hu
    rcases (assignment?_parts ha).2.2 v hv' with hmem | rfl
    · exact ht.isPlaced u (Tree.mem_preorder_of_child hmem hu)
    · exact hv.isPlaced u hu

/-- A node that grows by the end of its block is placed with this end. -/
lemma PlacedIn.extend (hP : MergeClosed P) (h : PlacedIn P c t) (hc : c ≠ .body) {r : Range}
    (hr : P r) : PlacedIn P .statement (t.extend r) := by
  have hkind : t.kind ≠ .body := fun hk => hc (h.eq_body.2 hk)
  have hroot := h.isPlaced t t.self_mem_preorder
  refine placedIn_statement (fun u hu => ?_) hkind
  rcases Tree.mem_preorder.1 hu with rfl | hu
  · exact ⟨lies_pair hP h.lies (lies_some.2 hr), hroot.tokens,
      iff_of_false (bounding_ne_none (.tail _ (.head _))) fun h => hkind h.1⟩
  · exact h.isPlaced u (Tree.mem_preorder.2 (.inr hu))

/-- What is not a body can stand in the place of a statement. -/
lemma PlacedIn.statement (h : PlacedIn P c t) (hc : c ≠ .body) : PlacedIn P .statement t :=
  placedIn_statement h.isPlaced fun hk => hc (h.eq_body.2 hk)

/-- What holds of the ranges of all tokens holds of all that is read from them. -/
theorem Reads.placedIn (hP : MergeClosed P) {s s' : Reading} (h : Reads s items s')
    (hs : ∀ k ∈ s.tokens, P k.range) :
    LieAll P items ∧ ∀ c t, .node c t ∈ items → PlacedIn P c t := by
  have node {c : Category} {t : NumberedTree} {items : List Item} (ht : PlacedIn P c t)
      (hi : LieAll P items ∧ ∀ c t, .node c t ∈ items → PlacedIn P c t) :
      LieAll P (.node c t :: items) ∧ ∀ d u, .node d u ∈ .node c t :: items → PlacedIn P d u := by
    refine ⟨lieAll_cons.2 ⟨ht.lies, hi.1⟩, fun d u hu => ?_⟩
    rcases List.mem_cons.1 hu with hu | hu
    · cases hu
      exact ht
    · exact hi.2 d u hu
  induction h with
  | nil => exact ⟨lieAll_nil, fun _ _ ht => absurd ht List.not_mem_nil⟩
  | @token s s' raw ts t items hf htokens _ ih =>
    rw [htokens] at hs
    have ⟨hi, hn⟩ := ih fun k hk => hs k (List.mem_append_right _ hk)
    refine ⟨lieAll_cons.2 ⟨lies_some.2 (hf.range hP fun r hr => ?_), hi⟩,
      fun c t ht => hn c t ((List.mem_cons.1 ht).resolve_left nofun)⟩
    obtain ⟨k, hk, rfl⟩ := List.mem_map.1 hr
    exact hs k (List.mem_append_left _ hk)
  | node hr hp _ _ ihi ih =>
    have ⟨hi, hn⟩ := ihi hs
    exact node (hp.placedIn hP hi hn) (ih fun k hk => hs k (hr.subset_tokens hk))
  | assignment ht _ hv ha _ iht ihv ih =>
    have hs' := fun k hk => hs k (ht.subset_tokens hk)
    have ⟨_, htarget⟩ := iht hs
    have ⟨hi, hvalue⟩ := ihv hs'
    exact node (placedIn_assignment hP ha (htarget _ _ (.head _))
      (lies_some.1 (lieAll_cons.1 hi).1) (hvalue _ _ (.tail _ (.head _))))
      (ih fun k hk => hs' k (hv.subset_tokens hk))
  | inline hr hp _ _ ihi ih =>
    have ⟨hi, hn⟩ := ihi hs
    exact node ((hp.placedIn hP hi hn).statement nofun)
      (ih fun k hk => hs k (hr.subset_tokens hk))
  | close hr hp _ _ he hf _ ihi ihe ih =>
    have hs' := fun k hk => hs k (hr.subset_tokens hk)
    have ⟨hi, hn⟩ := ihi hs
    exact node ((hp.placedIn hP hi hn).extend hP nofun (hf.range hP (ihe hs').1))
      (ih fun k hk => hs' k (he.subset_tokens hk))

end BrighterCheck
