import BrighterCheck.Proofs.Tree.Covering
import BrighterCheck.Proofs.Tree.Order

/-!
# Blocks of numbers

The numbers below a node are consecutive, and the blocks of its children stand behind one another
in the order of the source. The number of the node itself comes last, with two exceptions: the root
of a file has the number zero, and a statement that was made from a target keeps the number of the
target, which stands in front of the block of the value.
-/

namespace BrighterCheck

open BrighterCheck.Parser Item Range

/-- The numbers in a tree are those from `n` up to, not including, `m`, each of them once. -/
def Tree.IsBlock (t : NumberedTree) (n m : Nat) : Prop :=
  n < m ∧ (t.preorder.map Tree.id).Perm (List.range' n (m - n))

instance (t : NumberedTree) (n m : Nat) : Decidable (t.IsBlock n m) :=
  inferInstanceAs (Decidable (_ ∧ _))

/-- The blocks of the trees stand behind one another, from `n` up to `m`. -/
inductive Blocks : Nat → List NumberedTree → Nat → Prop where
  | nil (n : Nat) : Blocks n [] n
  | cons {n m k : Nat} {t : NumberedTree} {ts : List NumberedTree} :
      t.IsBlock n m → Blocks m ts k → Blocks n (t :: ts) k

/-- The trees stand behind one another in the source. -/
def InOrder (ts : List NumberedTree) : Prop :=
  ts.Pairwise fun t u => ∀ r ∈ t.range, ∀ s ∈ u.range, r.finish ≤ s.start

/-- Where a node stands in its block, which has the numbers from `n` up to `m`. -/
inductive Allocated : NumberedTree → Nat → Nat → Prop where
  /-- Other nodes come behind their children. -/
  | last {n id : Nat} {kind : NodeKind} {range : Option Range} {children : List NumberedTree} :
      kind.isTargeted = false → Blocks n children id →
      Allocated ⟨id, kind, range, children⟩ n (id + 1)
  /-- A targeted statement stands where its target stood, in front of the value. -/
  | kept {n m : Nat} {target value t : NumberedTree} {op : Token} :
      t.kind.isTargeted = true → assignment? target op value = some t → t.id = target.id →
      t.children = target.children ++ [value] → Blocks n target.children t.id →
      value.IsBlock (t.id + 1) m → Allocated t n m

variable {n m k : Nat} {t : NumberedTree} {ts : List NumberedTree}

namespace Numbered

lemma of_cons (h : Numbered n (t :: ts) k) : ∃ m, Numbered n [t] m ∧ Numbered m ts k := by
  cases h with
  | node hc hs => exact ⟨_, .node hc (.nil _), hs⟩
  | targeted ht ho hv hs => exact ⟨_, .targeted ht ho hv (.nil _), hs⟩

/-- No tree is without a number. -/
lemma lt (h : Numbered n [t] m) : n < m := by
  cases h with
  | node hc hs => exact Nat.lt_of_lt_of_le (Nat.lt_succ_of_le hc.le) hs.le
  | targeted _ ho hv hs =>
    exact Nat.lt_of_lt_of_le (Nat.lt_succ_of_le ho.le) (hv.le.trans hs.le)

lemma isBlock (h : Numbered n [t] m) : t.IsBlock n m :=
  ⟨h.lt, by simpa using h.perm⟩

lemma blocks (h : Numbered n ts m) : Blocks n ts m := by
  induction ts generalizing n with
  | nil =>
    rw [h.of_nil]
    exact .nil m
  | cons t ts ih =>
    obtain ⟨k, ht, hs⟩ := h.of_cons
    exact .cons ht.isBlock (ih hs)

end Numbered

/-- Productions make no targeted statements. -/
lemma Production.isTargeted_eq_false {c : Category} {kind : NodeKind} {range : Option Range}
    {items : List Item} (h : Production c kind range items) : kind.isTargeted = false := by
  cases h with
  | @arm form => cases form <;> rfl
  | extended h | single h | named h => cases h <;> rfl
  | _ => rfl

/-- An assignment is allocated as its target was, with the value behind it. -/
lemma allocated_assignment {target value : NumberedTree} {op : Token}
    (hname : ∀ name, target.kind = .name name → target.children = [])
    (ha : assignment? target op value = some t) (ht : Numbered n [target] m)
    (hv : Numbered m [value] k) : Allocated t n k := by
  obtain ⟨hkind, hkind', hid, hchildren⟩ := assignment?_inv hname ha
  obtain ⟨id, kind, range, children⟩ := target
  obtain ⟨hc, rfl⟩ := ht.of_node hkind
  dsimp only at hid
  subst hid
  exact .kept hkind' ha rfl hchildren hc.blocks hv.isBlock

/-- All nodes of a tree are allocated, each in its block. -/
def Settled (t : NumberedTree) : Prop :=
  ∀ u ∈ t.preorder, ∃ n m, u.IsBlock n m ∧ Allocated u n m

/-- A node is settled if it is allocated and all its children are settled. -/
lemma settled_of_children (ht : t.IsBlock n m) (ha : Allocated t n m)
    (hs : ∀ u ∈ t.children, Settled u) : Settled t := by
  intro u hu
  rcases Tree.mem_preorder.1 hu with rfl | hu
  · exact ⟨n, m, ht, ha⟩
  · obtain ⟨v, hv, hu⟩ := Tree.mem_preorderAll.1 hu
    exact hs v hv u hu

lemma Settled.child {u : NumberedTree} (h : Settled t) (hu : u ∈ t.children) : Settled u :=
  fun v hv => h v (Tree.mem_preorder_of_child hu hv)

/-- A node that was made from a production comes behind its children. -/
lemma Production.settled {c : Category} {kind : NodeKind} {range range' : Option Range}
    {items : List Item} (h : Production c kind range items) (hn : Numbered n (nodes items) m)
    (hs : ∀ d u, .node d u ∈ items → Settled u) : Settled ⟨m, kind, range', nodes items⟩ := by
  refine settled_of_children (Numbered.node hn (.nil _)).isBlock
    (.last h.isTargeted_eq_false hn.blocks) fun u hu => ?_
  obtain ⟨d, hi⟩ := mem_nodes.1 hu
  exact hs d u hi

/-- What is assigned to and what is assigned are settled, so the assignment is. -/
lemma settled_assignment {target value : NumberedTree} {op : Token}
    (hname : ∀ name, target.kind = .name name → target.children = [])
    (ha : assignment? target op value = some t) (ht : Numbered n [target] m)
    (hv : Numbered m [value] k) (hst : Settled target) (hsv : Settled value) : Settled t := by
  refine settled_of_children (assignment?_numbered hname ha ht hv).isBlock
    (allocated_assignment hname ha ht hv) fun u hu => ?_
  rcases (assignment?_parts ha).2.2 u hu with hu | rfl
  · exact hst.child hu
  · exact hsv

lemma inherits_settled (stream : List Token) : Inherits stream fun _ t => Settled t where
  made _ hi hp hs := hp.settled hi.numbered hs
  assigned _ ht _ hv ha hst hsv :=
    settled_assignment (fun _ => ht.children_name) ha ht.numbered hv.numbered hst hsv
  inlined := id
  closed _ hi hp _ _ hs := hp.settled hi.numbered hs

/-- All nodes that are read are settled. -/
theorem Reads.settled {s s' : Reading} {items : List Item} (h : Reads s items s') :
    ∀ c t, .node c t ∈ items → Settled t :=
  h.forall_node (inherits_settled s.tokens) (List.suffix_refl _)

section InOrder

variable {p q : Position}

/-- Items that stand behind one another have nodes that do. -/
lemma inOrder_of_between {items : List Item} (h : Between p (ranges items) q) :
    InOrder (nodes items) := by
  induction items generalizing p with
  | nil => exact .nil
  | cons i items ih =>
    rw [ranges_cons] at h
    obtain ⟨u, hi, hitems⟩ := h.split
    cases i with
    | token => exact ih hitems
    | node c t =>
      refine List.pairwise_cons.2 ⟨fun v hv r hr s hs => ?_, ih hitems⟩
      have hr : r ∈ (Item.range (.node c t)).toList := Option.mem_toList.2 hr
      exact (hi.within r hr).finish_le.trans (hitems.within s (mem_ranges_of_nodes hv hs)).le_start

/-- The children of all nodes of a tree stand behind one another. -/
def Sorted (t : NumberedTree) : Prop :=
  ∀ u ∈ t.preorder, InOrder u.children

/-- All nodes that are read are sorted. -/
theorem Reads.sorted {s s' : Reading} {items : List Item} (h : Reads s items s')
    (hb : Between p (s.tokens.map Token.range) q) : ∀ c t, .node c t ∈ items → Sorted t := by
  obtain ⟨m, hspread, -⟩ := h.spread hb
  intro c t ht u hu
  have hmem : u ∈ Tree.preorderAll (nodes items) :=
    Tree.mem_preorderAll.2 ⟨t, mem_nodes.2 ⟨c, ht⟩, hu⟩
  obtain ⟨n, k, hchildren⟩ := hspread.children u hmem
  exact hchildren.pairwise

end InOrder

namespace ParsedFile

/--
In a file that was read, the root has the first number and the blocks of the statements behind it.
Every other node has a block of numbers with the blocks of its children in the order of the source,
and comes last in it unless it took the place of a target.
-/
theorem tree_allocated {source : String} {f : ParsedFile} (h : ofSource source = .ok f) :
    (f.tree.id = 0 ∧ f.tree.IsBlock 0 f.nodeCount ∧ Blocks 1 f.tree.children f.nodeCount ∧
      InOrder f.tree.children) ∧
    ∀ t ∈ Tree.preorderAll f.tree.children, InOrder t.children ∧
      ∃ n m, t.IsBlock n m ∧ Allocated t n m := by
  obtain ⟨hs, items, rest, hm⟩ := made_of_ofSource h
  obtain ⟨q, hb⟩ := TokenStream.between_of_ofSource hs
  obtain ⟨m, hi, -, -⟩ := hm.reads.placed hb
  have hn : Numbered 1 (nodes items) rest.next := hm.reads.numbered
  have hblock : f.tree.IsBlock 0 f.nodeCount := by
    refine ⟨hm.nodeCount_eq ▸ hn.le, ?_⟩
    rw [Nat.sub_zero, ← List.range_eq_range']
    exact perm_ids h
  rw [hm.tree_eq] at hblock ⊢
  refine ⟨⟨rfl, hblock, hm.nodeCount_eq ▸ hn.blocks, inOrder_of_between hi⟩, fun t ht => ?_⟩
  obtain ⟨u, hu, ht⟩ := Tree.mem_preorderAll.1 ht
  obtain ⟨c, hu⟩ := mem_nodes.1 hu
  exact ⟨hm.reads.sorted hb c u hu t ht, hm.reads.settled c u hu t ht⟩

/--
In a loop, an assignment to an index of a field. Its target was numbered before the value, and so
the number of the assignment is the last but one of its block.
-/
theorem tree_allocated_of_loop :
    ∃ f, ofSource "while a\n m.n[0] = b\nend while" = .ok f ∧
      (∃ t ∈ Tree.preorderAll f.tree.children, t.kind.display = "IndexedSet" ∧ t.IsBlock 2 7 ∧
        t.id = 5 ∧ t.children.map Tree.id = [3, 4, 6]) ∧
      (f.tree.id = 0 ∧ f.tree.IsBlock 0 f.nodeCount ∧ Blocks 1 f.tree.children f.nodeCount ∧
        InOrder f.tree.children) ∧
      ∀ t ∈ Tree.preorderAll f.tree.children, InOrder t.children ∧
        ∃ n m, t.IsBlock n m ∧ Allocated t n m := by
  have hread : (ofSource "while a\n m.n[0] = b\nend while").toOption.any fun f =>
      (Tree.preorderAll f.tree.children).any fun t => t.kind.display = "IndexedSet" ∧
        t.IsBlock 2 7 ∧ t.id = 5 ∧ t.children.map Tree.id = [3, 4, 6] := by
    decide +kernel
  obtain ⟨f, hf, hread⟩ := exists_of_any hread
  obtain ⟨t, ht, hread⟩ := List.any_eq_true.1 hread
  exact ⟨f, hf, ⟨t, ht, of_decide_eq_true hread⟩, tree_allocated hf⟩

end ParsedFile

end BrighterCheck
