import BrighterCheck.Proofs.Tree.Located
import BrighterCheck.Proofs.Tree.Store
import Mathlib.Data.List.Sort
import Mathlib.Logic.Relation

/-!
# The arena of a file

The rows that are stored for the nodes of a file, each with the numbers of its parent and of its
children, are exactly one tree, the one that was read: every number below the number of nodes stands
for one node, parent links and child links agree, and all nodes hang together below the root.
-/

namespace BrighterCheck

/-- A node as a row of its own: its parent and its children are given by number. -/
structure Record where
  kind : NodeKind
  range : Option Range
  parent : Option Nat
  children : List Nat

/-- What a stored row says. -/
def Row.record (row : Row) : Record :=
  ⟨row.form.kind, row.range, row.parent, row.form.children⟩

/-- The row that a located node should have. -/
def Located.record (l : Located Nat) : Record :=
  ⟨l.node.kind, l.node.range, l.ancestors.head?.map Tree.id, l.node.children.map Tree.id⟩

/-- The rows of all nodes, each at the index that is its number. -/
abbrev Arena := List Record

/-- The rows that were stored when a file was read. -/
def ParsedFile.arena (f : ParsedFile) : Arena :=
  f.store.toList.map Row.record

namespace Arena

/-- The parent link of the node with the number `n`. -/
def parent? (a : Arena) (n : Nat) : Option Nat :=
  a[n]?.bind Record.parent

/-- The node with the number `p` has the one with the number `c` among its children. -/
def Links (a : Arena) (p c : Nat) : Prop :=
  ∃ r, a[p]? = some r ∧ c ∈ r.children

/-- The rows are one tree whose root has the number 0. -/
structure IsTree (a : Arena) : Prop where
  /-- The root is there and has no parent. -/
  root : ∃ r, a[0]? = some r ∧ r.parent = none
  /-- The root is no child. -/
  not_links_root : ∀ p, ¬ a.Links p 0
  /-- All children are there. -/
  lt_length : ∀ p c, a.Links p c → c < a.length
  /-- Every other node occurs once among the children of its parent, and of no other node. -/
  parent : ∀ n < a.length, n ≠ 0 → ∃ p r, a.parent? n = some p ∧ a[p]? = some r ∧
    r.children.count n = 1 ∧ ∀ q, a.Links q n → q = p
  /-- Every node is reached from the root. -/
  reaches : ∀ n < a.length, Relation.ReflTransGen a.Links 0 n
  /-- The way up from a node leads to the root, and to no node twice. -/
  climbs : ∀ n < a.length, ∃ path, (n :: path).IsChain (fun m p => a.parent? m = some p) ∧
    (n :: path).getLast? = some 0 ∧ (n :: path).Nodup

end Arena

/-- Where a tree is stored, every node in it has the row that it should have. -/
lemma Store.Stores.record_eq {a : Store} {t : NumberedTree} {l : Located Nat} (h : a.Stores [t])
    (hl : l ∈ t.located) : a[l.node.id]?.map Row.record = some l.record := by
  have hmem {k : Located Nat} (hk : k ∈ t.located) : k.node ∈ Tree.preorderAll [t] := by
    rw [Tree.preorderAll_singleton]
    exact Tree.mem_preorder_iff_located.2 ⟨k, hk, rfl⟩
  obtain ⟨form, hcontent, hhas⟩ := (h.holds l.node (hmem hl)).content
  have hlink : a.link? l.node.id = some (l.ancestors.head?.map Tree.id) := by
    cases ha : l.ancestors with
    | nil =>
      rw [Tree.node_eq_of_ancestors_eq_nil hl ha]
      exact h.top t (.head _)
    | cons p above =>
      obtain ⟨hp, hchild⟩ := Tree.parent_mem_located hl ha
      exact (h.holds p (hmem hp)).link l.node hchild
  obtain ⟨row, hrow, hform⟩ := Option.map_eq_some_iff.1 hcontent
  obtain ⟨rfl, hrange⟩ := Prod.mk.inj hform
  rw [link?, hrow, Option.map_some] at hlink
  rw [hrow, Option.map_some, Row.record, Located.record, hhas.kind_eq, hhas.children_eq, hrange,
    Option.some.inj hlink]

namespace ParsedFile

variable {f : ParsedFile} {source : String} {l : Located Nat}

lemma map_id_byNumber (h : ofSource source = .ok f) :
    f.tree.byNumber.map (·.node.id) = List.range f.nodeCount := by
  refine List.Perm.eq_of_pairwise' (r := (· ≤ ·)) ?_ List.pairwise_le_range ?_
  · rw [List.pairwise_map]
    refine (List.pairwise_mergeSort (fun a b c hab hbc => ?_) (fun a b => ?_) _).imp
      fun hab => of_decide_eq_true hab
    · exact decide_eq_true (Nat.le_trans (of_decide_eq_true hab) (of_decide_eq_true hbc))
    · simpa using Nat.le_total a.node.id b.node.id
  · have hp : (f.tree.located.map (·.node.id)).Perm (List.range f.nodeCount) := by
      have hids := perm_ids h
      rwa [← Tree.map_node_located, List.map_map] at hids
    exact ((List.mergeSort_perm _ _).map _).trans hp

/-- The row at an index is that of the node with this number. -/
lemma getElem?_byNumber (h : ofSource source = .ok f) {n : Nat} :
    f.tree.byNumber[n]? = some l ↔ l ∈ f.tree.located ∧ l.node.id = n := by
  have hid : ∀ {m : Nat} {k : Located Nat}, f.tree.byNumber[m]? = some k → k.node.id = m := by
    intro m k hk
    have hm := congrArg (·[m]?) (map_id_byNumber h)
    simp only [List.getElem?_map, hk, Option.map_some] at hm
    exact (List.getElem?_eq_some_iff.1 hm.symm).2.symm.trans (List.getElem_range _)
  constructor
  · intro hl
    exact ⟨(List.mergeSort_perm _ _).mem_iff.1 (List.mem_of_getElem? hl), hid hl⟩
  · rintro ⟨hl, rfl⟩
    obtain ⟨m, hm⟩ := List.getElem?_of_mem ((List.mergeSort_perm _ _).mem_iff.2 hl)
    rwa [hid hm]

/-- There is a row for every number below the number of nodes. -/
lemma length_arena (f : ParsedFile) : f.arena.length = f.nodeCount := by
  simp [arena, nodeCount]

/-- The stored rows are those of the nodes of the tree. -/
theorem arena_eq (h : ofSource source = .ok f) : f.arena = f.tree.byNumber.map Located.record := by
  have hlength : f.tree.byNumber.length = f.nodeCount := by
    simpa using congrArg List.length (map_id_byNumber h)
  refine List.ext_getElem? fun n => ?_
  rw [List.getElem?_map]
  cases hl : f.tree.byNumber[n]? with
  | none =>
    rw [List.getElem?_eq_none_iff, hlength, ← length_arena] at hl
    exact List.getElem?_eq_none hl
  | some l =>
    obtain ⟨hmem, rfl⟩ := (getElem?_byNumber h).1 hl
    rw [arena, List.getElem?_map, Array.getElem?_toList]
    exact (stores_tree h).record_eq hmem

/-- The rows are those of the located nodes. -/
lemma getElem?_arena (h : ofSource source = .ok f) {n : Nat} {r : Record} :
    f.arena[n]? = some r ↔ ∃ l ∈ f.tree.located, l.node.id = n ∧ l.record = r := by
  simp only [arena_eq h, List.getElem?_map, Option.map_eq_some_iff, getElem?_byNumber h, and_assoc]

lemma exists_located (h : ofSource source = .ok f) {n : Nat} (hn : n < f.arena.length) :
    ∃ l ∈ f.tree.located, l.node.id = n := by
  obtain ⟨l, hl, hid, -⟩ := (getElem?_arena h).1 (List.getElem?_eq_getElem hn)
  exact ⟨l, hl, hid⟩

lemma nodup_ids (h : ofSource source = .ok f) : (f.tree.preorder.map Tree.id).Nodup :=
  (perm_ids h).nodup_iff.2 List.nodup_range

lemma id_tree (h : ofSource source = .ok f) : f.tree.id = 0 := by
  obtain ⟨-, items, rest, hm⟩ := made_of_ofSource h
  rw [hm.tree_eq]
  rfl

/-- A link leads from a located node to one of its children. -/
lemma links_arena (h : ofSource source = .ok f) {p c : Nat} :
    f.arena.Links p c ↔ ∃ l ∈ f.tree.located, l.node.id = p ∧ ∃ u ∈ l.node.children, u.id = c := by
  constructor
  · rintro ⟨r, hr, hc⟩
    obtain ⟨l, hl, hid, rfl⟩ := (getElem?_arena h).1 hr
    exact ⟨l, hl, hid, List.mem_map.1 hc⟩
  · rintro ⟨l, hl, hid, hu⟩
    exact ⟨l.record, (getElem?_arena h).2 ⟨l, hl, hid, rfl⟩, List.mem_map.2 hu⟩

/-- The parent link of a located node leads to its nearest ancestor. -/
lemma parent?_arena (h : ofSource source = .ok f) (hl : l ∈ f.tree.located) :
    f.arena.parent? l.node.id = l.ancestors.head?.map Tree.id := by
  rw [Arena.parent?, (getElem?_arena h).2 ⟨l, hl, rfl, rfl⟩]
  rfl

/-- Only the parent of a located node links to it, and it does so once. -/
lemma linked_once (h : ofSource source = .ok f) {p : Tree Nat} {above : List NumberedTree}
    (hl : l ∈ f.tree.located) (ha : l.ancestors = p :: above) :
    ∃ r, f.arena[p.id]? = some r ∧ r.children.count l.node.id = 1 ∧
      ∀ q, f.arena.Links q l.node.id → q = p.id := by
  obtain ⟨hp, hmem⟩ := Tree.parent_mem_located hl ha
  refine ⟨_, (getElem?_arena h).2 ⟨_, hp, rfl, rfl⟩, ?_, fun q hq => ?_⟩
  · exact List.count_eq_one_of_mem (Tree.nodup_children (nodup_ids h) hp)
      (List.mem_map_of_mem hmem)
  · obtain ⟨k, hk, rfl, u, hu, hid⟩ := (links_arena h).1 hq
    cases Tree.eq_of_mem_located (nodup_ids h) (Tree.child_mem_located hk hu) hl hid
    cases ha
    rfl

/-- Child links lead from the root to every located node. -/
lemma reaches_located (h : ofSource source = .ok f) (hl : l ∈ f.tree.located) :
    Relation.ReflTransGen f.arena.Links 0 l.node.id := by
  obtain ⟨node, ancestors⟩ := l
  induction ancestors generalizing node with
  | nil =>
    rw [Tree.node_eq_of_ancestors_eq_nil hl rfl, id_tree h]
  | cons p above ih =>
    obtain ⟨hp, hmem⟩ := Tree.parent_mem_located hl rfl
    exact (ih p hp).tail ((links_arena h).2 ⟨_, hp, rfl, node, hmem, rfl⟩)

/-- Parent links lead from a located node along its ancestors. -/
lemma isChain_ancestors (h : ofSource source = .ok f) (hl : l ∈ f.tree.located) :
    (l.selfAndAncestors.map Tree.id).IsChain (fun m p => f.arena.parent? m = some p) := by
  obtain ⟨node, ancestors⟩ := l
  induction ancestors generalizing node with
  | nil => exact .singleton _
  | cons p above ih =>
    exact .cons_cons (parent?_arena h hl) (ih p (Tree.parent_mem_located hl rfl).1)

/-- The last of the ancestors of a located node is the root. -/
lemma getLast?_ancestors (h : ofSource source = .ok f) (hl : l ∈ f.tree.located) :
    (l.selfAndAncestors.map Tree.id).getLast? = some 0 := by
  obtain ⟨node, ancestors⟩ := l
  induction ancestors generalizing node with
  | nil =>
    cases Tree.node_eq_of_ancestors_eq_nil hl rfl
    exact congrArg some (id_tree h)
  | cons p above ih =>
    have hp := ih p (Tree.parent_mem_located hl rfl).1
    simpa [Located.selfAndAncestors] using hp

/-- The rows that are stored when a file was read are one tree, and they are those of its nodes. -/
theorem arena_isTree (h : ofSource source = .ok f) :
    f.arena.IsTree ∧ f.arena = f.tree.byNumber.map Located.record := by
  refine ⟨⟨?_, ?_, ?_, ?_, ?_, ?_⟩, arena_eq h⟩
  · exact ⟨_, (getElem?_arena h).2 ⟨_, Tree.root_mem_located, id_tree h, rfl⟩, rfl⟩
  · intro p hp
    obtain ⟨l, hl, -, u, hu, hid⟩ := (links_arena h).1 hp
    cases Tree.eq_of_mem_located (nodup_ids h) (Tree.child_mem_located hl hu)
      Tree.root_mem_located (hid.trans (id_tree h).symm)
  · intro p c hc
    obtain ⟨l, hl, -, u, hu, hid⟩ := (links_arena h).1 hc
    have hrow := (getElem?_arena h).2 ⟨_, Tree.child_mem_located hl hu, hid, rfl⟩
    exact (List.getElem?_eq_some_iff.1 hrow).1
  · intro n hn h₀
    obtain ⟨l, hl, rfl⟩ := exists_located h hn
    cases ha : l.ancestors with
    | nil => exact absurd (Tree.node_eq_of_ancestors_eq_nil hl ha ▸ id_tree h) h₀
    | cons p above =>
      obtain ⟨r, hr⟩ := linked_once h hl ha
      refine ⟨p.id, r, ?_, hr⟩
      rw [parent?_arena h hl, ha]
      rfl
  · intro n hn
    obtain ⟨l, hl, rfl⟩ := exists_located h hn
    exact reaches_located h hl
  · intro n hn
    obtain ⟨l, hl, rfl⟩ := exists_located h hn
    exact ⟨l.ancestors.map Tree.id, isChain_ancestors h hl, getLast?_ancestors h hl,
      Tree.nodup_ancestors (nodup_ids h) hl⟩

/-- An indexed assignment in a loop keeps the number of its target, and nothing is lost. -/
theorem arena_isTree_assignment :
    ∃ f, ofSource "while a\n m.n[0] = b\nend while" = .ok f ∧
      f.arena.map Record.parent =
        [none, some 8, some 3, some 5, some 5, some 7, some 5, some 8, some 0] ∧
      f.arena.map Record.children = [[8], [], [], [2], [], [3, 4, 6], [], [5], [1, 7]] ∧
      f.arena.IsTree ∧ f.arena = f.tree.byNumber.map Located.record := by
  have hlinks : (ofSource "while a\n m.n[0] = b\nend while").toOption.any fun f =>
      f.arena.map Record.parent =
        [none, some 8, some 3, some 5, some 5, some 7, some 5, some 8, some 0] ∧
      f.arena.map Record.children = [[8], [], [], [2], [], [3, 4, 6], [], [5], [1, 7]] := by
    decide +kernel
  obtain ⟨f, hf, hlinks⟩ := exists_of_any hlinks
  obtain ⟨hparents, hchildren⟩ := of_decide_eq_true hlinks
  exact ⟨f, hf, hparents, hchildren, arena_isTree hf⟩

end ParsedFile

end BrighterCheck
