import BrighterCheck.Proofs.Tree.Blocks
import BrighterCheck.Proofs.Tree.Origin
import BrighterCheck.Proofs.Tree.Shape

/-!
# Statements in bodies, bodies in namespaces

In every file that was read, the statements of a body stand behind one another in its range, and a
namespace has a name and a body in its range (`ParsedFile.isNested`). So the statements that are
reached from the root through bodies of namespaces only follow one another in the source, however
deep they stand.
-/

namespace BrighterCheck

open BrighterCheck.Parser Item Range

/-- A namespace is made of its name and its body, and covers all of it. -/
lemma Production.namespace_inv {c : Category} {keyword : Token} {range : Option Range}
    {items : List Item} (h : Production c (.namespaceDeclaration keyword) range items) :
    c = .statement ∧ range ≠ none ∧ ∃ name body ends, name.IsQualified ∧
      items = .token keyword :: .node .expression name :: .node .body body :: tokens ends := by
  generalize hkind : NodeKind.namespaceDeclaration keyword = kind at h
  cases h with
  | namespaceDeclaration _ hq _ =>
    cases hkind
    exact ⟨rfl, nofun, _, _, _, hq, rfl⟩
  | @arm form => cases form <;> cases hkind
  | extended h | single h | named h => cases h <;> cases hkind
  | _ => cases hkind

/-- What bodies and namespaces are made of. -/
structure Tree.IsNested (t : NumberedTree) : Prop where
  /-- The statements of a body stand behind one another in its range. -/
  bodies : t.kind = .body → InOrder t.children ∧
    ∀ u ∈ t.children, ∀ s ∈ u.range, ∃ r ∈ t.range, r.Covers s
  /-- A namespace has a name and a body, which stands in its range. -/
  namespaces : t.kind.isNamespace = true → ∃ name body, t.children = [name, body] ∧
    name.kind.isBody = false ∧ body.kind = .body ∧ ∀ s ∈ body.range, ∃ r ∈ t.range, r.Covers s

/-- A body that was read is nested. -/
lemma bodies_of_production {c : Category} {s u : Reading} {t : NumberedTree} {inside : List Item}
    {p q : Position} (hi : Reads s inside u) (hp : Production c t.kind t.range inside)
    (hc : t.children = nodes inside) (hb : Between p (s.tokens.map Token.range) q)
    (hk : t.kind = .body) : InOrder t.children ∧
      ∀ u ∈ t.children, ∀ s ∈ u.range, ∃ r ∈ t.range, r.Covers s := by
  obtain ⟨m, hbetween, -, -⟩ := hi.placed hb
  cases hp.eq_body hk
  obtain ⟨-, hrange, -⟩ := hp.body_inv
  rw [hc, hrange]
  refine ⟨inOrder_of_between hbetween, ?_⟩
  intro u hu s hs
  exact exists_bounding_covers (List.mem_map.2 ⟨u, hu, hs⟩)

/-- A namespace that was read is nested. -/
lemma namespaces_of_production {c : Category} {s u : Reading} {t : NumberedTree}
    {inside : List Item} {p q : Position} (hi : Reads s inside u)
    (hp : Production c t.kind t.range inside) (hc : t.children = nodes inside)
    (hb : Between p (s.tokens.map Token.range) q) (hk : t.kind.isNamespace = true) :
    ∃ name body, t.children = [name, body] ∧ name.kind.isBody = false ∧ body.kind = .body ∧
      ∀ s ∈ body.range, ∃ r ∈ t.range, r.Covers s := by
  obtain ⟨m, hbetween, -, hplaced⟩ := hi.placed hb
  obtain ⟨keyword, hkind⟩ : ∃ keyword, t.kind = .namespaceDeclaration keyword := by
    cases hkind : t.kind with
    | namespaceDeclaration keyword => exact ⟨keyword, rfl⟩
    | _ =>
      rw [hkind] at hk
      cases hk
  rw [hkind] at hp
  obtain ⟨rfl, hrange, name, body, ends, hq, rfl⟩ := hp.namespace_inv
  have hencloses := hp.encloses nofun hbetween hplaced
  obtain ⟨r, hr⟩ := Option.ne_none_iff_exists'.1 hrange
  have hname : name.kind.isBody = false := by
    cases hq with
    | name => rfl
    | dotted => rfl
  refine ⟨name, body, by simp [hc], hname, hi.kind_eq_body (by simp), ?_⟩
  intro s hs
  exact ⟨r, hr, hencloses r hr body (by simp) s hs⟩

/-- An assignment is no namespace. -/
lemma assignment?_isNamespace {target value t : NumberedTree} {op : Token}
    (h : assignment? target op value = some t) : t.kind.isNamespace = false := by
  unfold assignment? at h
  split at h
  case h_1 | h_2 | h_3 =>
    cases h
    rfl
  case h_4 => cases h

/-- An arm is no namespace. -/
lemma Production.arm_isNamespace {form : ArmForm} {word : TokenKind} {kind : NodeKind}
    {range : Option Range} {items : List Item} (h : Production (.arm form word) kind range items) :
    kind.isNamespace = false := by
  obtain ⟨k, -, -, -, -, -, -, -, rfl, -⟩ := h.arm_inv
  cases form with
  | block | inline | compile => rfl

/-- Every node that was read is nested. -/
lemma Origin.isNested {tokens : List Token} {t : NumberedTree} {p q : Position}
    (h : Origin tokens t) (hb : Between p (tokens.map Token.range) q) : t.IsNested := by
  cases h with
  | made hs hi hp hc =>
    obtain ⟨m, hb⟩ := between_of_suffix hs hb
    exact ⟨bodies_of_production hi hp hc hb, namespaces_of_production hi hp hc hb⟩
  | assigned _ _ _ _ ha =>
    constructor
    · exact fun hk => absurd hk (assignment?_kind ha)
    · exact fun hk => nomatch (assignment?_isNamespace ha).symm.trans hk
  | closed _ _ hp _ =>
    constructor
    · exact fun hk => nomatch hp.eq_body hk
    · exact fun hk => nomatch hp.arm_isNamespace.symm.trans hk

namespace Tree.IsNested

variable {t : NumberedTree}

/-- A namespace that is nested has the form that the rule expects. -/
lemma isNamespace_eq_false (h : t.IsNested) (hn : ∀ keyword name id range statements,
    t.kind = .namespaceDeclaration keyword →
      t.children = [name, ⟨id, .body, range, statements⟩] → False) :
    t.kind.isNamespace = false := by
  by_contra hk
  obtain ⟨name, ⟨id, kind, range, statements⟩, hchildren, -, hbody, -⟩ :=
    h.namespaces (Bool.eq_true_of_not_eq_false hk)
  cases hbody
  cases hkind : t.kind with
  | namespaceDeclaration keyword => exact hn _ _ _ _ _ hkind hchildren
  | _ => simp [hkind, NodeKind.isNamespace] at hk

/-- If all nodes of a tree are nested, so are a child of it and all that is below the child. -/
lemma of_child {u : NumberedTree} (h : ∀ v ∈ t.preorder, v.IsNested) (hu : u ∈ t.children) :
    u.IsNested ∧ ∀ v ∈ Tree.preorderAll u.children, v.IsNested := by
  have hchild : ∀ v ∈ u.preorder, v.IsNested :=
    fun v hv => h v (Tree.mem_preorder_of_child hu hv)
  exact ⟨hchild u u.self_mem_preorder, fun v hv => hchild v (Tree.mem_preorder.2 (.inr hv))⟩

end Tree.IsNested

namespace ParsedFile

/-- In a file that was read, every node is nested. -/
theorem isNested {source : String} {f : ParsedFile} (h : ofSource source = .ok f) :
    ∀ t ∈ f.tree.preorder, t.IsNested := by
  obtain ⟨q, hb⟩ := TokenStream.between_of_ofSource (made_of_ofSource h).1
  intro t ht
  exact (origin h t ht).isNested hb

/-- In a file that was read, every node below the root is nested. -/
lemma isNested_below {source : String} {f : ParsedFile} (h : ofSource source = .ok f) :
    ∀ t ∈ Tree.preorderAll f.tree.children, t.IsNested :=
  fun t ht => isNested h t (Tree.mem_preorder.2 (.inr ht))

end ParsedFile

end BrighterCheck
