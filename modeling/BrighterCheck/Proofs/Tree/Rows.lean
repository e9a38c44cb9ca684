import BrighterCheck.Proofs.Parser.Passage.File
import BrighterCheck.Proofs.Tree.Arena

/-!
# Relabelled rows

How the rows of an arena look in another source. The root of a file keeps its number there, and the
numbers of all other nodes are shifted.
-/

namespace BrighterCheck

/-- The row of a located node with its number. -/
def Located.row (l : Located Nat) : Nat × Record :=
  (l.node.id, l.record)

namespace Relabel

variable (r : Relabel)

/-- The number of a node in the other source, where the root is the root again. -/
def number (n : Nat) : Nat :=
  if n = 0 then 0 else n + r.shift

def record (row : Record) : Record :=
  ⟨r.kind row.kind, row.range.map r.range, row.parent.map r.number, row.children.map r.number⟩

lemma number_eq {n : Nat} (h : n ≠ 0 ∨ r.shift = 0) : r.number n = n + r.shift := by
  unfold number
  split
  case isTrue hn =>
    rw [h.resolve_left fun hne => hne hn, hn]
  case isFalse => rfl

/-- The numbers from 1 on, as they are in the other source. -/
lemma map_number_range' (n : Nat) :
    (List.range' 1 n).map r.number = List.range' (1 + r.shift) n := by
  have hshift : (List.range' 1 n).map r.number = (List.range' 1 n).map (r.shift + ·) := by
    refine List.map_congr_left fun m hm => ?_
    rw [r.number_eq (.inl (Nat.ne_zero_of_lt (List.mem_range'_1.1 hm).1)), Nat.add_comm]
  rw [hshift, List.map_add_range', Nat.add_comm]

@[simp] lemma number_refl : refl.number = id :=
  funext fun _ => refl.number_eq (.inr rfl)

@[simp] lemma record_refl : refl.record = id := by
  funext row
  have hrange : row.range.map refl.range = row.range := Option.map_id'
  simp only [record, kind_refl, hrange, number_refl, List.map_id, Option.map_id, id]

lemma record_located (hr : r.shift = 0) (l : Located Nat) :
    (r.located l).record = r.record l.record := by
  obtain ⟨node, ancestors⟩ := l
  have hid : Tree.id ∘ r.tree = r.number ∘ Tree.id := by
    funext t
    exact (r.tree_id t).trans (r.number_eq (.inr hr)).symm
  simp only [Located.record, located, record, tree_kind, tree_range, tree_children, List.map_map,
    hid, List.head?_map, Option.map_map]

lemma byNumber_tree (t : NumberedTree) : (r.tree t).byNumber = t.byNumber.map r.located := by
  rw [Tree.byNumber, Tree.byNumber, located_tree]
  refine (List.map_mergeSort fun a _ b _ => ?_).symm
  have hid (l : Located Nat) : (r.located l).node.id = l.node.id + r.shift := r.tree_id l.node
  rw [hid, hid]
  exact decide_eq_decide.2 (Nat.add_le_add_iff_right).symm

/-- The rows of a relabelled tree are the relabelled rows. -/
lemma map_record_arena (hr : r.shift = 0) {f : ParsedFile} {source : String}
    (h : ParsedFile.ofSource source = .ok f) :
    f.arena.map r.record = (r.tree f.tree).byNumber.map Located.record := by
  have hrow : Located.record ∘ r.located = r.record ∘ Located.record :=
    funext (r.record_located hr)
  rw [ParsedFile.arena_eq h, List.map_map, ← hrow, ← List.map_map, ← byNumber_tree]

/-- The same row in the other source. -/
def row (l : Located Nat) : Nat × Record :=
  (r.number l.node.id, r.record l.record)

@[simp] lemma row_refl : refl.row = Located.row := by
  funext l
  simp [row, Located.row]

/-- The rows of the nodes below others whose nearest ones correspond. -/
lemma row_locatedBelow {above above' : List NumberedTree} {t : NumberedTree}
    (ht : ∀ u ∈ t.preorder, u.id ≠ 0)
    (ha : above'.head?.map Tree.id = (above.head?.map Tree.id).map r.number) :
    (Tree.locatedBelow above' (r.tree t)).map Located.row =
      (Tree.locatedBelow above t).map r.row := by
  induction t using Tree.induction generalizing above above' with
  | node t ih =>
    have hmem {u v : NumberedTree} (hu : u ∈ t.children) (hv : v ∈ u.preorder) : v ∈ t.preorder :=
      Tree.mem_preorder.2 (.inr (Tree.mem_preorderAll.2 ⟨u, hu, hv⟩))
    have hid : r.number t.id = t.id + r.shift :=
      r.number_eq (.inl (ht t (Tree.mem_preorder.2 (.inl rfl))))
    have hids : t.children.map (fun u => u.id + r.shift) =
        t.children.map fun u => r.number u.id :=
      List.map_congr_left fun u hu =>
        (r.number_eq (.inl (ht u (hmem hu (Tree.mem_preorder.2 (.inl rfl)))))).symm
    have hchildren : t.children.flatMap (fun u =>
        (Tree.locatedBelow (r.tree t :: above') (r.tree u)).map Located.row) =
          t.children.flatMap fun u => (Tree.locatedBelow (t :: above) u).map r.row := by
      refine List.flatMap_congr fun u hu => ih u hu (fun v hv => ht v (hmem hu hv)) ?_
      simp [hid]
    rw [Tree.locatedBelow_eq, Tree.locatedBelow_eq t, tree_children, List.flatMap_map,
      List.map_cons, List.map_cons, List.map_flatMap, List.map_flatMap, hchildren]
    congr 1
    simp [Located.row, Located.record, row, record, ha, hid, hids, Function.comp_def]

/-- The rows of the nodes below two roots. -/
lemma row_flatMap {t t' : NumberedTree} {ts : List NumberedTree} (ht : t.id = 0) (ht' : t'.id = 0)
    (hts : ∀ u ∈ Tree.preorderAll ts, u.id ≠ 0) :
    ((ts.map r.tree).flatMap (Tree.locatedBelow [t'])).map Located.row =
      (ts.flatMap (Tree.locatedBelow [t])).map r.row := by
  rw [List.map_flatMap, List.map_flatMap, List.flatMap_map]
  refine List.flatMap_congr fun u hu => r.row_locatedBelow (fun v hv => ?_) ?_
  · exact hts v (Tree.mem_preorderAll.2 ⟨u, hu, hv⟩)
  · simp [ht, ht', number]

end Relabel

namespace ParsedFile

variable {f : ParsedFile} {source : String}

/-- Rows with the numbers of a file are its arena, if they are those of its nodes. -/
lemma arena_eq_of_perm (h : ofSource source = .ok f) {rows : List (Nat × Record)}
    (hnumbers : rows.map Prod.fst = List.range f.nodeCount)
    (hperm : (f.tree.located.map Located.row).Perm rows) : f.arena = rows.map Prod.snd := by
  have hsorted (rows : List (Nat × Record)) (h : rows.map Prod.fst = List.range f.nodeCount) :
      rows.Pairwise fun a b => a.1 < b.1 := by
    rw [← List.pairwise_map, h]
    exact List.pairwise_lt_range
  have hnumbers' : (f.tree.byNumber.map Located.row).map Prod.fst = List.range f.nodeCount := by
    rw [← map_id_byNumber h, List.map_map]
    rfl
  have hrows : f.tree.byNumber.map Located.row = rows :=
    List.Perm.eq_of_pairwise (fun a b _ _ hab hba => absurd hba (Nat.lt_asymm hab))
      (hsorted _ hnumbers') (hsorted _ hnumbers)
      (((List.mergeSort_perm _ _).map _).trans hperm)
  rw [arena_eq h, ← hrows, List.map_map]
  rfl

/-- The rows behind that of the root are those of the nodes below it, with the numbers from 1 on. -/
lemma exists_byNumber_eq (h : ofSource source = .ok f) :
    ∃ ls : List (Located Nat), f.tree.byNumber = ⟨f.tree, []⟩ :: ls ∧
      (f.tree.children.flatMap (Tree.locatedBelow [f.tree])).Perm ls ∧
      f.nodeCount = ls.length + 1 ∧ ls.map (·.node.id) = List.range' 1 ls.length := by
  have hroot := (getElem?_byNumber h).2 ⟨Tree.root_mem_located, id_tree h⟩
  have hids := map_id_byNumber h
  have hperm : f.tree.byNumber.Perm f.tree.located := List.mergeSort_perm _ _
  cases hrows : f.tree.byNumber with
  | nil =>
    rw [hrows] at hroot
    cases hroot
  | cons l ls =>
    rw [hrows] at hroot hids hperm
    cases hroot
    have hlength : f.nodeCount = ls.length + 1 := by
      simpa using (congrArg List.length hids).symm
    refine ⟨ls, rfl, ?_, hlength, ?_⟩
    · rw [Tree.located, Tree.locatedBelow_eq] at hperm
      exact hperm.cons_inv.symm
    · rw [hlength, List.range_eq_range', List.range'_succ, List.map_cons] at hids
      exact (List.cons.inj hids).2

/-- Only the root has the number 0. -/
lemma id_ne_zero (h : ofSource source = .ok f) {u : NumberedTree}
    (hu : u ∈ Tree.preorderAll f.tree.children) : u.id ≠ 0 := by
  have hnodes : f.tree.preorder = f.tree :: Tree.preorderAll f.tree.children := by
    cases f.tree
    rfl
  have hnodup := nodup_ids h
  rw [hnodes, List.map_cons, id_tree h] at hnodup
  intro hzero
  exact (List.nodup_cons.1 hnodup).1 (hzero ▸ List.mem_map_of_mem hu)

end ParsedFile

end BrighterCheck
