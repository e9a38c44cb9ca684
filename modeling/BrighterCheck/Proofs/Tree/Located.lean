import BrighterCheck.Tree.Located
import Mathlib.Data.List.Nodup
import Mathlib.Tactic.Lemma

/-!
# Parents and children of located nodes

The located nodes of a tree are closed under children and parents, and each is reached from the root
along its ancestors. If no number occurs twice in the tree, a number stands for one place in it.
-/

namespace BrighterCheck

/-- A place is known by its node and the ancestors. -/
lemma Located.eq_of_selfAndAncestors_eq {ι : Type} {l l' : Located ι}
    (h : l.selfAndAncestors = l'.selfAndAncestors) : l = l' := by
  cases l
  cases l'
  cases h
  rfl

namespace Tree

variable {ι : Type} {t : Tree ι} {ts above : List (Tree ι)} {l : Located ι}

lemma mem_preorderAll {u : Tree ι} : u ∈ preorderAll ts ↔ ∃ t ∈ ts, u ∈ t.preorder := by
  induction ts with
  | nil => simp [preorderAll]
  | cons t ts ih => simp [preorderAll, ih]

lemma mem_preorder {u : Tree ι} : u ∈ t.preorder ↔ u = t ∨ u ∈ preorderAll t.children := by
  obtain ⟨id, kind, range, children⟩ := t
  simp [preorder]

lemma self_mem_preorder (t : Tree ι) : t ∈ t.preorder :=
  mem_preorder.2 (.inl rfl)

/-- Trees of a list are among its nodes. -/
lemma mem_preorderAll_of_mem (ht : t ∈ ts) : t ∈ preorderAll ts :=
  mem_preorderAll.2 ⟨t, ht, t.self_mem_preorder⟩

lemma mem_preorder_of_child {u v : Tree ι} (hu : u ∈ t.children) (hv : v ∈ u.preorder) :
    v ∈ t.preorder :=
  mem_preorder.2 (.inr (mem_preorderAll.2 ⟨u, hu, hv⟩))

lemma locatedBelowAll_eq :
    locatedBelowAll above ts = ts.flatMap (locatedBelow above) := by
  induction ts with
  | nil => rfl
  | cons t ts ih => rw [locatedBelowAll, ih, List.flatMap_cons]

/-- A node stands before the nodes below it. -/
lemma locatedBelow_eq (t : Tree ι) :
    locatedBelow above t = ⟨t, above⟩ :: t.children.flatMap (locatedBelow (t :: above)) := by
  obtain ⟨id, kind, range, children⟩ := t
  rw [locatedBelow, locatedBelowAll_eq]

lemma mem_locatedBelow :
    l ∈ locatedBelow above t ↔
      l = ⟨t, above⟩ ∨ ∃ u ∈ t.children, l ∈ locatedBelow (t :: above) u := by
  rw [locatedBelow_eq, List.mem_cons, List.mem_flatMap]

lemma self_mem_locatedBelow : ⟨t, above⟩ ∈ locatedBelow above t :=
  mem_locatedBelow.2 (.inl rfl)

lemma child_mem_locatedBelow (h : l ∈ locatedBelow above t) {u : Tree ι}
    (hu : u ∈ l.node.children) : ⟨u, l.node :: l.ancestors⟩ ∈ locatedBelow above t := by
  induction t using Tree.induction generalizing above with
  | node t ih =>
    rcases mem_locatedBelow.1 h with rfl | ⟨v, hv, hl⟩
    · exact mem_locatedBelow.2 (.inr ⟨u, hu, self_mem_locatedBelow⟩)
    · exact mem_locatedBelow.2 (.inr ⟨v, hv, ih v hv hl⟩)

lemma parent_mem_locatedBelow (h : l ∈ locatedBelow above t) :
    l = ⟨t, above⟩ ∨ ∃ p ∈ locatedBelow above t,
      l.node ∈ p.node.children ∧ l.ancestors = p.node :: p.ancestors := by
  induction t using Tree.induction generalizing above with
  | node t ih =>
    rcases mem_locatedBelow.1 h with rfl | ⟨v, hv, hl⟩
    · exact .inl rfl
    · refine .inr ?_
      rcases ih v hv hl with rfl | ⟨p, hp, hpl⟩
      · exact ⟨⟨t, above⟩, self_mem_locatedBelow, hv, rfl⟩
      · exact ⟨p, mem_locatedBelow.2 (.inr ⟨v, hv, hp⟩), hpl⟩

/-- The root is located below nothing. -/
lemma root_mem_located : ⟨t, []⟩ ∈ t.located :=
  self_mem_locatedBelow

/-- A child of a located node is located below it. -/
lemma child_mem_located (h : l ∈ t.located) {u : Tree ι} (hu : u ∈ l.node.children) :
    ⟨u, l.node :: l.ancestors⟩ ∈ t.located :=
  child_mem_locatedBelow h hu

/-- The nodes of a tree are those that are located in it. -/
lemma mem_preorder_iff_located {u : Tree ι} : u ∈ t.preorder ↔ ∃ l ∈ t.located, l.node = u := by
  rw [← map_node_located, List.mem_map]

/-- A child of a node below some trees is below them too. -/
lemma child_mem_preorderAll {u v : Tree ι} (hu : u ∈ preorderAll ts) (hv : v ∈ u.children) :
    v ∈ preorderAll ts := by
  obtain ⟨t, ht, hu⟩ := mem_preorderAll.1 hu
  obtain ⟨l, hl, rfl⟩ := mem_preorder_iff_located.1 hu
  have hchild := mem_preorder_iff_located.2 ⟨_, child_mem_located hl hv, rfl⟩
  exact mem_preorderAll.2 ⟨t, ht, hchild⟩

/-- Only the root has no parent. -/
lemma node_eq_of_ancestors_eq_nil (h : l ∈ t.located) (ha : l.ancestors = []) : l.node = t := by
  rcases parent_mem_locatedBelow h with rfl | ⟨p, -, -, hp⟩
  · rfl
  · rw [ha] at hp
    cases hp

/-- The parent of a located node is located, and has the node among its children. -/
lemma parent_mem_located (h : l ∈ t.located) {p : Tree ι} {above : List (Tree ι)}
    (ha : l.ancestors = p :: above) : ⟨p, above⟩ ∈ t.located ∧ l.node ∈ p.children := by
  rcases parent_mem_locatedBelow h with rfl | ⟨q, hq, hl, he⟩
  · cases ha
  · rw [ha] at he
    cases he
    exact ⟨hq, hl⟩

/-- Every ancestor of a located node is located below the ancestors above it. -/
lemma ancestor_mem_located (h : l ∈ t.located) {p : Tree ι} {above : List (Tree ι)}
    (hs : p :: above <:+ l.ancestors) : ⟨p, above⟩ ∈ t.located := by
  obtain ⟨node, ancestors⟩ := l
  induction ancestors generalizing node with
  | nil => cases List.suffix_nil.1 hs
  | cons q ancestors ih =>
    have hq := (parent_mem_located h rfl).1
    rcases List.suffix_cons_iff.1 hs with he | hs
    · cases he
      exact hq
    · exact ih q hq hs

lemma ancestor_mem_of_flatMap {S : Located ι} {before after : List (Located ι)}
    (hts : ∀ u ∈ ts, ∀ before after, locatedBelow above u = before ++ l :: after →
      S.selfAndAncestors <:+ above ∨ S ∈ before)
    (h : ts.flatMap (locatedBelow above) = before ++ l :: after) :
    S.selfAndAncestors <:+ above ∨ S ∈ before := by
  induction ts generalizing before with
  | nil => cases List.append_eq_nil_iff.1 h.symm |>.2
  | cons u ts ih =>
    have hu := hts u (.head _)
    have hmore : ∀ v ∈ ts, ∀ before after, locatedBelow above v = before ++ l :: after →
        S.selfAndAncestors <:+ above ∨ S ∈ before := fun v hv => hts v (.tail _ hv)
    rw [List.flatMap_cons] at h
    rcases List.append_eq_append_iff.1 h with ⟨more, rfl, hrest⟩ | ⟨more, hfirst, hrest⟩
    · exact (ih hmore hrest).imp_right (List.mem_append_right _)
    · cases more with
      | nil => exact (@ih [] hmore hrest.symm).imp_right nofun
      | cons m more =>
        cases hrest
        exact hu before more hfirst

/-- Where the nodes of a tree are listed, every ancestor stands before the nodes below it. -/
lemma ancestor_mem_of_locatedBelow {S : Located ι} {before after : List (Located ι)}
    (h : locatedBelow above t = before ++ l :: after)
    (hs : S.selfAndAncestors <:+ l.ancestors) :
    S.selfAndAncestors <:+ above ∨ S ∈ before := by
  induction t using Tree.induction generalizing above before after with
  | node t ih =>
    rw [locatedBelow_eq] at h
    cases before with
    | nil =>
      cases h
      exact .inl hs
    | cons b before =>
      obtain ⟨hfirst, hrest⟩ := List.cons.inj h
      subst hfirst
      rcases ancestor_mem_of_flatMap (fun u hu _ _ hb => ih u hu hb) hrest with hS | hS
      · rcases List.suffix_cons_iff.1 hS with he | hS
        · have hfirst : S = ⟨t, above⟩ := Located.eq_of_selfAndAncestors_eq he
          rw [hfirst]
          exact .inr (.head _)
        · exact .inl hS
      · exact .inr (.tail _ hS)

/-- In pre-order, every ancestor of a node stands before the node. -/
lemma ancestor_mem_before {S : Located ι} {before after : List (Located ι)}
    (h : t.located = before ++ l :: after) (hs : S.selfAndAncestors <:+ l.ancestors) :
    S ∈ before :=
  (ancestor_mem_of_locatedBelow h hs).resolve_left fun hn => nomatch List.suffix_nil.1 hn

/-- The first nodes in pre-order hold all their ancestors. -/
lemma mem_of_suffix {S : Located ι} {before after : List (Located ι)}
    (h : t.located = before ++ after) (hl : l ∈ before)
    (hs : S.selfAndAncestors <:+ l.selfAndAncestors) : S ∈ before := by
  rcases List.suffix_cons_iff.1 hs with he | hs
  · have hsame : S = l := Located.eq_of_selfAndAncestors_eq he
    rw [hsame]
    exact hl
  · obtain ⟨first, more, rfl⟩ := List.append_of_mem hl
    rw [List.append_assoc, List.cons_append] at h
    exact List.mem_append_left _ (ancestor_mem_before h hs)

/-- No place occurs twice, if no number does. -/
lemma nodup_located {t : NumberedTree} (hn : (t.preorder.map Tree.id).Nodup) :
    t.located.Nodup := by
  apply List.Nodup.of_map (fun l => l.node.id)
  rwa [← map_node_located, List.map_map] at hn

/-- Located nodes with the same number are the same, if no number occurs twice. -/
lemma eq_of_mem_located {t : NumberedTree} (hn : (t.preorder.map Tree.id).Nodup)
    {l l' : Located Nat} (h : l ∈ t.located) (h' : l' ∈ t.located)
    (he : l.node.id = l'.node.id) : l = l' := by
  rw [← map_node_located, List.map_map] at hn
  exact List.inj_on_of_nodup_map hn h h' he

/-- Trees are among their nodes, in the same order. -/
lemma sublist_preorderAll (ts : List (Tree ι)) : ts.Sublist (preorderAll ts) := by
  induction ts with
  | nil => exact .slnil
  | cons t ts ih =>
    obtain ⟨id, kind, range, children⟩ := t
    exact (ih.trans (List.sublist_append_right _ _)).cons_cons _

/-- The nodes of one of some trees are among the nodes of all. -/
lemma preorder_sublist_preorderAll (ht : t ∈ ts) : t.preorder.Sublist (preorderAll ts) := by
  induction ts with
  | nil => cases ht
  | cons u ts ih =>
    rcases List.mem_cons.1 ht with rfl | ht
    · exact List.sublist_append_left _ _
    · exact (ih ht).trans (List.sublist_append_right _ _)

/-- The nodes below a located node are among the nodes of the tree. -/
lemma preorder_sublist (h : l ∈ locatedBelow above t) : l.node.preorder.Sublist t.preorder := by
  induction t using Tree.induction generalizing above with
  | node t ih =>
    rcases mem_locatedBelow.1 h with rfl | ⟨u, hu, hl⟩
    · exact .refl _
    · obtain ⟨id, kind, range, children⟩ := t
      exact ((ih u hu hl).trans (preorder_sublist_preorderAll hu)).cons _

/-- The nodes below a node or one of its ancestors are among the nodes of the tree. -/
lemma preorder_subset (h : l ∈ t.located) {u : Tree ι} (hu : u ∈ l.selfAndAncestors) :
    u.preorder ⊆ t.preorder := by
  cases List.mem_cons.1 hu with
  | inl hself => exact hself ▸ (preorder_sublist h).subset
  | inr habove =>
    obtain ⟨before, above, hs⟩ := List.append_of_mem habove
    exact (preorder_sublist (ancestor_mem_located h ⟨before, hs.symm⟩)).subset

/-- The numbers of the children of one node are different, if no number occurs twice. -/
lemma nodup_children {t : NumberedTree} (hn : (t.preorder.map Tree.id).Nodup) {l : Located Nat}
    (h : l ∈ t.located) : (l.node.children.map Tree.id).Nodup := by
  have hl : l.node.children.Sublist l.node.preorder := by
    cases l.node with
    | mk id kind range children => exact (sublist_preorderAll children).cons _
  exact hn.sublist ((hl.trans (preorder_sublist h)).map _)

/-- A node and its ancestors have different numbers, if no number occurs twice. -/
lemma nodup_ancestors {t : NumberedTree} (hn : (t.preorder.map Tree.id).Nodup) {l : Located Nat}
    (h : l ∈ t.located) : (l.selfAndAncestors.map Tree.id).Nodup := by
  obtain ⟨node, ancestors⟩ := l
  induction ancestors generalizing node with
  | nil => exact List.nodup_singleton _
  | cons q ancestors ih =>
    refine List.nodup_cons.2 ⟨fun hmem => ?_, ih q (parent_mem_located h rfl).1⟩
    obtain ⟨a, ha, he⟩ := List.mem_map.1 hmem
    obtain ⟨before, above, hs⟩ := List.append_of_mem ha
    have hl : ⟨a, above⟩ ∈ t.located := ancestor_mem_located h ⟨before, hs.symm⟩
    -- The ancestor would have itself among its ancestors.
    cases eq_of_mem_located hn hl h he
    have hlength := congrArg List.length hs
    simp at hlength
    omega

end Tree

end BrighterCheck
