import BrighterCheck.Proofs.Tree.Covering
import BrighterCheck.Proofs.Tree.Numbering

/-!
# The children of declarations

What the nodes that declare symbols are made of, in every file that was read: assignments and
constants of one value, named functions of one function expression, and namespaces of a name and a
body, where no token of the name has a dot in it. Bodies have no bodies among their statements, and
what is assigned to has an object.
-/

namespace BrighterCheck

open BrighterCheck.Parser Item

namespace Tree

variable {ι : Type}

/-- A function expression. -/
def IsFunction (t : Tree ι) : Prop :=
  ∃ keyword returns, t.kind = .functionExpression keyword returns

/-- The children of a node are those that its kind asks for. -/
def IsShaped (t : Tree ι) : Prop :=
  match t.kind with
  | .body => ∀ u ∈ t.children, u.kind ≠ .body
  | .dottedSet .. | .indexedSet .. => t.children ≠ []
  | .assignment .. | .counter .. | .constDeclaration .. => ∃ value, t.children = [value]
  | .function _ | .method .. => ∃ f, t.children = [f] ∧ f.IsFunction
  | .namespaceDeclaration _ => ∃ name body, t.children = [name, body] ∧ name.IsQualified
  | _ => True

end Tree

variable {c : Category} {kind : NodeKind} {range : Option Range} {items : List Item}
  {t : NumberedTree}

/-- Bodies are made in the place of a body only. -/
lemma Production.eq_body (h : Production c kind range items) (hk : kind = .body) : c = .body := by
  subst hk
  generalize hkind : NodeKind.body = kind at h
  cases h with
  | body => rfl
  | @arm form => cases form <;> cases hkind
  | extended h | single h | named h => cases h <;> cases hkind
  | _ => cases hkind

/--
A node is shaped if the definitions in it are function expressions, and bodies stand in their place.
-/
lemma Production.isShaped {id : Nat} (h : Production c kind range items)
    (hf : ∀ name f, .node (.definition name) f ∈ items → f.IsFunction)
    (hb : ∀ d t, .node d t ∈ items → t.kind = .body → d = .body) :
    Tree.IsShaped ⟨id, kind, range, nodes items⟩ := by
  cases h with
  | body hl =>
    intro u hu hk
    obtain ⟨d, hi⟩ := mem_nodes.1 hu
    cases hl _ hi
    cases hb _ u hi hk
  | counter => exact ⟨_, rfl⟩
  | named h =>
    cases h with
    | const => exact ⟨_, rfl⟩
    | _ => trivial
  | @function name f => exact ⟨f, rfl, hf name f (.head _)⟩
  | @method access overriding name f =>
    have hmem : Item.node (.definition name) f ∈
        tokens access.toList ++ (tokens overriding.toList ++ [.node (.definition name) f]) := by
      simp
    exact ⟨f, by simp, hf name f hmem⟩
  | @namespaceDeclaration k name b ends r _ hq => exact ⟨name, b, by simp, hq⟩
  | @arm form => cases form <;> trivial
  | extended h => cases h <;> trivial
  | single h => cases h <;> trivial
  | _ => trivial

/-- Every node of a tree is shaped, and a definition is a function expression. -/
structure Formed (c : Category) (t : NumberedTree) : Prop where
  isShaped : ∀ u ∈ t.preorder, u.IsShaped
  isFunction : ∀ name, c = .definition name → t.IsFunction
  eq_body : t.kind = .body → c = .body

/-- A node is formed if its parts are. -/
lemma Production.formed {id : Nat} (h : Production c kind range items)
    (hi : ∀ d t, .node d t ∈ items → Formed d t) : Formed c ⟨id, kind, range, nodes items⟩ where
  isShaped u hu := by
    rcases Tree.mem_preorder.1 hu with rfl | hu
    · exact h.isShaped (fun name f hf => (hi _ f hf).isFunction name rfl)
        fun d t ht => (hi d t ht).eq_body
    · obtain ⟨v, hv, hu⟩ := Tree.mem_preorderAll.1 hu
      obtain ⟨d, hmem⟩ := mem_nodes.1 hv
      exact (hi d v hmem).isShaped u hu
  isFunction name hc := by
    subst hc
    exact h.definition_inv.1
  eq_body := h.eq_body

/-- A node is formed whatever range it covers. -/
lemma Formed.extend (h : Formed c t) (r : Range) : Formed c (t.extend r) where
  isShaped u hu := by
    rcases Tree.mem_preorder.1 hu with rfl | hu
    · exact h.isShaped t (Tree.mem_preorder.2 (.inl rfl))
    · exact h.isShaped u (Tree.mem_preorder.2 (.inr hu))
  isFunction := h.isFunction
  eq_body := h.eq_body

/-- What is assigned is the only child of an assignment. -/
lemma assignment?_isShaped {target value : NumberedTree} {op : Token}
    (h : assignment? target op value = some t) : t.IsShaped := by
  unfold assignment? at h
  split at h
  case h_1 =>
    cases h
    exact ⟨value, rfl⟩
  case h_2 =>
    cases h
    exact List.append_ne_nil_of_right_ne_nil _ (List.cons_ne_nil _ _)
  case h_3 =>
    cases h
    exact List.append_ne_nil_of_right_ne_nil _ (List.cons_ne_nil _ _)
  case h_4 => cases h

/-- An assignment is no body. -/
lemma assignment?_kind {target value : NumberedTree} {op : Token}
    (h : assignment? target op value = some t) : t.kind ≠ .body := by
  unfold assignment? at h
  split at h <;> cases h <;> nofun

/-- What is assigned to and what is assigned are formed, so the assignment is. -/
lemma formed_assignment {target value : NumberedTree} {op : Token}
    (ha : assignment? target op value = some t) (ht : Formed .expression target)
    (hv : Formed .expression value) : Formed .statement t where
  isShaped u hu := by
    rcases Tree.mem_preorder.1 hu with rfl | hu
    · exact assignment?_isShaped ha
    · -- below the assignment are the parts of its target and its value
      obtain ⟨v, hv', hu⟩ := Tree.mem_preorderAll.1 hu
      rcases (assignment?_parts ha).2.2 v hv' with hmem | rfl
      · exact ht.isShaped u (Tree.mem_preorder_of_child hmem hu)
      · exact hv.isShaped u hu
  isFunction := nofun
  eq_body hk := absurd hk (assignment?_kind ha)

/-- What is formed in the place of an arm is so in the place of a statement. -/
lemma Formed.statement {form : ArmForm} {word : TokenKind} (h : Formed (.arm form word) t) :
    Formed .statement t where
  isShaped := h.isShaped
  isFunction := nofun
  eq_body hk := nomatch h.eq_body hk

lemma inherits_formed (stream : List Token) : Inherits stream Formed where
  made _ _ hp hi := hp.formed hi
  assigned _ _ _ _ ha ht hv := formed_assignment ha ht hv
  inlined := Formed.statement
  closed _ _ hp _ _ hi := ((hp.formed hi).extend _).statement

/-- All nodes that are read are formed. -/
theorem Reads.formed {s s' : Reading} (h : Reads s items s') :
    ∀ c t, .node c t ∈ items → Formed c t :=
  h.forall_node (inherits_formed s.tokens) (List.suffix_refl _)

/-- A tree of a file: its root is a body, its nodes are shaped, and no number occurs twice. -/
structure Tree.IsScript (t : NumberedTree) : Prop where
  kind_eq : t.kind = .body
  isShaped : ∀ u ∈ t.preorder, u.IsShaped
  nodup : (t.preorder.map Tree.id).Nodup

/-- What was read from a source is the tree of a file. -/
theorem ParsedFile.isScript {source : String} {f : ParsedFile} (h : ofSource source = .ok f) :
    f.tree.IsScript := by
  obtain ⟨-, items, rest, hm⟩ := made_of_ofSource h
  have hbody : Production .body .body (Range.bounding ((nodes items).map Tree.range)) items :=
    .body hm.lists
  refine ⟨by rw [hm.tree_eq]; rfl, ?_, (perm_ids h).nodup_iff.2 List.nodup_range⟩
  rw [hm.tree_eq]
  exact (hbody.formed hm.reads.formed).isShaped

end BrighterCheck
