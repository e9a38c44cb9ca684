import BrighterCheck.Proofs.Tree.Covering

/-!
# Where the nodes of a file come from

Every node of a file was made by a production from what was read at some place of the source, unless
it is an assignment that a target and a value became, or a conditional that has grown since to cover
its end (`ParsedFile.origin`). So a property of single nodes needs no induction of its own: it is
read off the production, or off the target that was read before.
-/

namespace BrighterCheck

open BrighterCheck.Parser Item

/-- How a node came to be while `tokens` were read. -/
inductive Origin (tokens : List Token) (t : NumberedTree) : Prop where
  /-- A production made it of what was read. -/
  | made {s u : Reading} {c : Category} {inside : List Item} :
      s.tokens <:+ tokens → Reads s inside u → Production c t.kind t.range inside →
      t.children = nodes inside → Origin tokens t
  /-- A target and a value became an assignment. -/
  | assigned {s u v : Reading} {target value : NumberedTree} {op : Token} :
      s.tokens <:+ tokens → Reads s [.node .expression target] u → isAssignment op.kind = true →
      Reads u [.token op, .node .expression value] v → assignment? target op value = some t →
      Origin tokens t
  /-- A conditional covers the words that end it. -/
  | closed {s u : Reading} {form : ArmForm} {range : Option Range} {inside : List Item} :
      s.tokens <:+ tokens → Reads s inside u →
      Production (.arm form form.first) t.kind range inside → t.children = nodes inside →
      Origin tokens t

variable {s s' : Reading} {items inside : List Item} {tokens : List Token}

/-- If the parts of a node have origins with all that is below them, then so has the node. -/
lemma Origin.preorder {t : NumberedTree} (h : Origin tokens t) (hc : t.children = nodes inside)
    (hi : ∀ c v, .node c v ∈ inside → ∀ u ∈ v.preorder, Origin tokens u) :
    ∀ u ∈ t.preorder, Origin tokens u := by
  intro u hu
  cases Tree.mem_preorder.1 hu with
  | inl hu =>
    subst hu
    exact h
  | inr hu =>
    obtain ⟨v, hv, hu⟩ := Tree.mem_preorderAll.1 hu
    obtain ⟨c, hmem⟩ := mem_nodes.1 (hc ▸ hv)
    exact hi c v hmem u hu

/-- An assignment has an origin with all that is below its target and its value. -/
lemma Origin.preorder_assignment {target value t : NumberedTree} {op : Token}
    (h : Origin tokens t) (ha : assignment? target op value = some t)
    (ht : ∀ u ∈ target.preorder, Origin tokens u) (hv : ∀ u ∈ value.preorder, Origin tokens u) :
    ∀ u ∈ t.preorder, Origin tokens u := by
  intro u hu
  cases Tree.mem_preorder.1 hu with
  | inl hu =>
    subst hu
    exact h
  | inr hu =>
    obtain ⟨w, hw, hu⟩ := Tree.mem_preorderAll.1 hu
    obtain hw | rfl := (assignment?_parts ha).2.2 w hw
    · exact ht u (Tree.mem_preorder_of_child hw hu)
    · exact hv u hu

lemma inherits_origin (tokens : List Token) :
    Inherits tokens fun _ t => ∀ u ∈ t.preorder, Origin tokens u where
  made hs hi hp ho := Origin.preorder (.made hs hi hp rfl) rfl ho
  assigned hs hr ho hv ha ht hvalue :=
    Origin.preorder_assignment (.assigned hs hr ho hv ha) ha ht hvalue
  inlined := id
  closed hs hi hp _ _ ho := Origin.preorder (.closed hs hi hp rfl) rfl ho

lemma inherits_kind_eq_body (tokens : List Token) :
    Inherits tokens fun c t => c = .body → t.kind = .body where
  made _ _ hp _ hc := by
    subst hc
    exact hp.body_inv.1
  assigned _ _ _ _ _ _ _ hc := nomatch hc
  inlined _ hc := nomatch hc
  closed _ _ _ _ _ _ hc := nomatch hc

namespace Reads

/-- An expression was made by a production, and has the range that the production gave to it. -/
lemma expression_inv {t : NumberedTree} (h : Reads s [.node .expression t] s') :
    ∃ w inside, Reads s inside w ∧ Production .expression t.kind t.range inside ∧
      t.children = nodes inside := by
  cases h with
  | node hi hp => exact ⟨_, _, hi, hp, rfl⟩

/-- What is read in the place of a body is a body. -/
lemma kind_eq_body (h : Reads s items s') {b : NumberedTree} (hb : .node .body b ∈ items) :
    b.kind = .body :=
  h.forall_node (inherits_kind_eq_body s.tokens) (List.suffix_refl _) .body b hb rfl

/-- A node that is read at some place of `tokens` has an origin, and so has every node below it. -/
theorem origin (h : Reads s items s') (hs : s.tokens <:+ tokens) :
    ∀ c t, .node c t ∈ items → ∀ u ∈ t.preorder, Origin tokens u :=
  h.forall_node (inherits_origin tokens) hs

end Reads

namespace ParsedFile

/-- Every node of a file has an origin in the tokens of the file. -/
theorem origin {source : String} {f : ParsedFile} (h : ofSource source = .ok f) :
    ∀ t ∈ f.tree.preorder, Origin f.stream.tokens t := by
  obtain ⟨-, items, rest, hmade⟩ := made_of_ofSource h
  rw [hmade.tree_eq]
  exact Origin.preorder (.made (List.suffix_refl _) hmade.reads (.body hmade.lists) rfl) rfl
    (hmade.reads.origin (List.suffix_refl _))

end ParsedFile

end BrighterCheck
