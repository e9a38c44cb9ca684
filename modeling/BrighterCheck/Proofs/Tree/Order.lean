import BrighterCheck.Proofs.Lexer.Order
import BrighterCheck.Proofs.Parser.Order
import BrighterCheck.Proofs.Parser.Soundness.File
import BrighterCheck.Proofs.Tree.Traversal

/-!
# The order of nodes in the source

The children of a node stand behind one another in the source, so that a walk never goes back. This
does not follow from the ranges alone, as a later arm of conditional compilation does not cover its
condition: every tree is spread over a part of the source that holds all its nodes, and these parts
lie behind one another.
-/

namespace BrighterCheck

open BrighterCheck.Parser Item Range

variable {ι : Type} {p q : Position} {t u : Tree ι} {ts us above : List (Tree ι)}

/-- The node `t` ends before the node `u` starts, wherever both have ranges. -/
def Tree.Precedes (t u : Tree ι) : Prop :=
  ∀ r ∈ t.range, ∀ s ∈ u.range, r.finish ≤ s.start

instance (t u : Tree ι) : Decidable (t.Precedes u) :=
  inferInstanceAs (Decidable (∀ r ∈ t.range, ∀ s ∈ u.range, r.finish ≤ s.start))

/-- The node `l` is a strict ancestor of the node `k`. -/
def Located.IsAncestor (l k : Located ι) : Prop :=
  l.selfAndAncestors <:+ k.ancestors

/-- Trees that stand behind one another between two positions, and below each so do its children. -/
inductive Spread : Position → List (Tree ι) → Position → Prop where
  | nil {p q : Position} : p ≤ q → Spread p [] q
  | cons {p m q : Position} {t : Tree ι} {ts : List (Tree ι)} :
      Lies (Within p · m) t.range → Spread p t.children m → Spread m ts q → Spread p (t :: ts) q

namespace Spread

lemma le (h : Spread p ts q) : p ≤ q := by
  induction h with
  | nil hp => exact hp
  | cons _ _ _ ihc ihs => exact ihc.trans ihs

lemma mono_left {p' : Position} (h : Spread p ts q) (hp : p' ≤ p) : Spread p' ts q := by
  induction h generalizing p' with
  | nil hq => exact .nil (hp.trans hq)
  | cons ht _ hs ihc _ => exact .cons (fun r hr => (ht r hr).mono hp (le_refl _)) (ihc hp) hs

lemma append {m : Position} (h : Spread p ts m) (h' : Spread m us q) : Spread p (ts ++ us) q := by
  induction h with
  | nil hp => exact h'.mono_left hp
  | cons ht hc _ _ ihs => exact .cons ht hc (ihs h')

lemma mono_right {q' : Position} (h : Spread p ts q) (hq : q ≤ q') : Spread p ts q' := by
  have hall := h.append (.nil hq)
  rwa [List.append_nil] at hall

/-- All nodes of the trees lie between the two positions. -/
lemma within (h : Spread p ts q) : ∀ t ∈ Tree.preorderAll ts, Lies (Within p · q) t.range := by
  induction h with
  | nil => exact List.forall_mem_nil _
  | cons ht hc hs ihc ihs =>
    intro v hall
    obtain ⟨u, hu, hv⟩ := Tree.mem_preorderAll.1 hall
    rcases List.mem_cons.1 hu with rfl | hu
    · rcases Tree.mem_preorder.1 hv with rfl | hv
      · exact fun r hr => (ht r hr).mono (le_refl _) hs.le
      · exact fun r hr => (ihc v hv r hr).mono (le_refl _) hs.le
    · exact fun r hr => (ihs v (Tree.mem_preorderAll.2 ⟨u, hu, hv⟩) r hr).mono hc.le (le_refl _)

/-- What is below a tree is spread over a part of the source. -/
lemma children (h : Spread p ts q) : ∀ t ∈ Tree.preorderAll ts, ∃ m n, Spread m t.children n := by
  induction h with
  | nil => exact List.forall_mem_nil _
  | cons _ hc _ ihc ihs =>
    intro v hall
    obtain ⟨u, hu, hv⟩ := Tree.mem_preorderAll.1 hall
    rcases List.mem_cons.1 hu with rfl | hu
    · rcases Tree.mem_preorder.1 hv with rfl | hv
      · exact ⟨_, _, hc⟩
      · exact ihc v hv
    · exact ihs v (Tree.mem_preorderAll.2 ⟨u, hu, hv⟩)

/-- Every node of the first trees precedes every node of those behind them. -/
lemma precedes {m : Position} (h : Spread p ts m) (h' : Spread m us q)
    (ht : t ∈ Tree.preorderAll ts) (hu : u ∈ Tree.preorderAll us) : t.Precedes u :=
  fun r hr s hs => (h.within t ht r hr).finish_le.trans (h'.within u hu s hs).le_start

/-- Each of the trees precedes those behind it. -/
lemma pairwise (h : Spread p ts q) : ts.Pairwise Tree.Precedes := by
  induction h with
  | nil => exact .nil
  | @cons p m q t ts ht _ hs _ ihs =>
    refine .cons (fun u hu r hr s hs' => ?_) ihs
    have hmem : u ∈ Tree.preorderAll ts := Tree.mem_preorderAll.2 ⟨u, hu, u.self_mem_preorder⟩
    exact (ht r hr).finish_le.trans (hs.within u hmem s hs').le_start

/-- A tree that ends, as its children do, before what is left. -/
lemma single {m n : Position} {left : List Range} (ht : Lies (Within p · n) t.range)
    (hn : Between n left q) (hc : Spread p t.children m) (hm : Between m left q) :
    ∃ m, Spread p [t] m ∧ Between m left q := by
  rcases le_total m n with hle | hle
  · exact ⟨n, .cons ht (hc.mono_right hle) (.nil (le_refl n)), hn⟩
  · have ht' : Lies (Within p · m) t.range := fun r hr => (ht r hr).mono (le_refl p) hle
    exact ⟨m, .cons ht' hc (.nil (le_refl m)), hm⟩

end Spread

namespace Tree

lemma node_mem_of_locatedBelowAll {l : Located ι} (h : l ∈ locatedBelowAll above ts) :
    l.node ∈ preorderAll ts := by
  rw [← map_node_locatedBelowAll above]
  exact List.mem_map_of_mem h

/-- The nodes around a tree are around everything in it. -/
lemma suffix_of_mem_locatedBelow {l : Located ι} (h : l ∈ locatedBelow above t) :
    above <:+ l.ancestors := by
  induction t using Tree.induction generalizing above with
  | node t ih =>
    rcases mem_locatedBelow.1 h with rfl | ⟨u, hu, hl⟩
    · exact List.suffix_refl _
    · exact (List.suffix_cons t above).trans (ih u hu hl)

lemma suffix_of_mem_locatedBelowAll {l : Located ι} (h : l ∈ locatedBelowAll above ts) :
    above <:+ l.ancestors := by
  rw [locatedBelowAll_eq] at h
  obtain ⟨t, -, hl⟩ := List.mem_flatMap.1 h
  exact suffix_of_mem_locatedBelow hl

end Tree

/-- Of two nodes in pre-order, the first is an ancestor of the other or precedes it. -/
theorem Spread.pairwise_locatedBelowAll (h : Spread p ts q) (above : List (Tree ι)) :
    (Tree.locatedBelowAll above ts).Pairwise fun l k =>
      l.IsAncestor k ∨ l.node.Precedes k.node := by
  induction h generalizing above with
  | nil => exact .nil
  | @cons p m q t ts ht hc hs ihc ihs =>
    obtain ⟨id, kind, range, children⟩ := t
    rw [Tree.locatedBelowAll, List.pairwise_append]
    refine ⟨.cons ?_ (ihc _), ihs above, ?_⟩
    · exact fun k hk => .inl (Tree.suffix_of_mem_locatedBelowAll hk)
    · -- the tree as a whole stands before those behind it
      intro l hl k hk
      have hfirst : Spread p [⟨id, kind, range, children⟩] m := .cons ht hc (.nil (le_refl m))
      have hl : l ∈ Tree.locatedBelowAll above [⟨id, kind, range, children⟩] := by
        rw [Tree.locatedBelowAll, Tree.locatedBelowAll, List.append_nil]
        exact hl
      exact .inr (hfirst.precedes hs (Tree.node_mem_of_locatedBelowAll hl)
        (Tree.node_mem_of_locatedBelowAll hk))

/-- A node that was read is spread over what it was read from, as soon as its children are. -/
lemma Reads.spread_node {s s' : Reading} {c : Category} {t : NumberedTree} {m : Position}
    (h : Reads s [.node c t] s') (hb : Between p (s.tokens.map Token.range) q)
    (hc : Spread p t.children m) (hm : Between m (s'.tokens.map Token.range) q) :
    ∃ m, Spread p [t] m ∧ Between m (s'.tokens.map Token.range) q := by
  obtain ⟨n, -, hn, ht⟩ := h.placed hb
  exact Spread.single (ht c t (.head _)).within hn hc hm

/-- The nodes that are read are spread over the source between what is before and what is left. -/
theorem Reads.spread {s s' : Reading} {items : List Item} (h : Reads s items s')
    (hb : Between p (s.tokens.map Token.range) q) :
    ∃ m, Spread p (nodes items) m ∧ Between m (s'.tokens.map Token.range) q := by
  induction h generalizing p with
  | nil => exact ⟨p, .nil (le_refl p), hb⟩
  | token _ hs _ ih =>
    rw [hs, List.map_append] at hb
    obtain ⟨n, hraw, hts⟩ := hb.split
    obtain ⟨m, hi, hrest⟩ := ih hts
    exact ⟨m, hi.mono_left hraw.le, hrest⟩
  | node hr hp hform _ ihi ih =>
    obtain ⟨m, hi, hrest⟩ := ihi hb
    obtain ⟨n, hnode, hrest⟩ := (hr.wrap hp hform).spread_node hb hi hrest
    obtain ⟨m, hi', hrest⟩ := ih hrest
    exact ⟨m, hnode.append hi', hrest⟩
  | @assignment s u v s' target value t op items htarget ho hvalue ha _ iht ihv ih =>
    obtain ⟨m, ht, hrest⟩ := iht hb
    obtain ⟨n, hv, hrest⟩ := ihv hrest
    have hchildren : Spread p t.children n := by
      -- of the target, its children are left
      obtain ⟨-, -, -, hparts⟩ := assignment?_inv (fun _ => htarget.children_name) ha
      rw [hparts]
      cases ht with
      | cons _ hc hn => exact (hc.mono_right hn.le).append hv
    obtain ⟨m, hnode, hrest⟩ :=
      (Reads.assignment htarget ho hvalue ha (.nil _)).spread_node hb hchildren hrest
    obtain ⟨m, hi', hrest⟩ := ih hrest
    exact ⟨m, hnode.append hi', hrest⟩
  | inline hr hp hform _ ihi ih =>
    obtain ⟨m, hi, hrest⟩ := ihi hb
    obtain ⟨n, hnode, hrest⟩ := (Reads.inline hr hp hform (.nil _)).spread_node hb hi hrest
    obtain ⟨m, hi', hrest⟩ := ih hrest
    exact ⟨m, hnode.append hi', hrest⟩
  | close hr hp hf hform he hfin _ ihi ihe ih =>
    obtain ⟨m, hi, hrest⟩ := ihi hb
    obtain ⟨n, hends, hrest⟩ := ihe hrest
    have hchildren := hi.mono_right hends.le
    obtain ⟨m, hnode, hrest⟩ :=
      (Reads.close hr hp hf hform he hfin (.nil _)).spread_node hb hchildren hrest
    obtain ⟨m, hi', hrest⟩ := ih hrest
    exact ⟨m, hnode.append hi', hrest⟩

namespace ParsedFile

variable {source : String} {f : ParsedFile}

/-- The tree of a file is spread over its source. -/
lemma spread_of_ofSource (h : ofSource source = .ok f) : ∃ p q, Spread p [f.tree] q := by
  obtain ⟨hs, items, rest, hmade⟩ := made_of_ofSource h
  obtain ⟨q, hb⟩ := TokenStream.between_of_ofSource hs
  have hbody : Production .body .body (bounding ((nodes items).map Tree.range)) items :=
    .body hmade.lists
  obtain ⟨m, hc, hm⟩ := hmade.reads.spread hb
  obtain ⟨n, hi, hn, hplaced⟩ := hmade.reads.placed hb
  obtain ⟨m, htree, -⟩ := Spread.single (hbody.placed hi hplaced).within hn hc hm
  rw [hmade.tree_eq]
  exact ⟨_, m, htree⟩

/-- Of two nodes of a file in pre-order, the first is an ancestor of the other or precedes it. -/
lemma pairwise_located (h : ofSource source = .ok f) :
    f.tree.located.Pairwise fun l k => l.IsAncestor k ∨ l.node.Precedes k.node := by
  obtain ⟨p, q, htree⟩ := spread_of_ofSource h
  have hall := htree.pairwise_locatedBelowAll []
  rwa [Tree.locatedBelowAll, Tree.locatedBelowAll, List.append_nil] at hall

/--
In a file that was read, every child of a node ends before the next ones start. Of two nodes that a
walk from the root enters, the one entered first ends before the other starts, unless it is an
ancestor of it.
-/
theorem precedes_of_walk (h : ofSource source = .ok f) :
    (∀ t ∈ f.tree.preorder, t.children.Pairwise Tree.Precedes) ∧
      ((f.tree.walk none).filterMap Event.entered?).Pairwise fun l k =>
        l.IsAncestor k ∨ l.node.Precedes k.node := by
  constructor
  · obtain ⟨p, q, htree⟩ := spread_of_ofSource h
    intro t ht
    obtain ⟨m, n, hc⟩ := htree.children t (Tree.mem_preorderAll.2 ⟨_, .head _, ht⟩)
    exact hc.pairwise
  · rw [Tree.walk_eq_traversal, Tree.filterMap_entered_traversal]
    exact pairwise_located h

/-- This holds although the second arm does not cover its condition. -/
theorem precedes_of_walk_of_bare :
    ∃ f, ofSource "#if a\n#else if b\n#end if\nm.n = -1" = .ok f ∧ f.tree.size = 11 ∧
      (∀ t ∈ f.tree.preorder, t.children.Pairwise Tree.Precedes) ∧
      ((f.tree.walk none).filterMap Event.entered?).Pairwise fun l k =>
        l.IsAncestor k ∨ l.node.Precedes k.node := by
  have hsize : (ofSource "#if a\n#else if b\n#end if\nm.n = -1").toOption.any
      fun f => f.tree.size = 11 := by
    decide +kernel
  obtain ⟨f, hf, hsize⟩ := exists_of_any hsize
  exact ⟨f, hf, of_decide_eq_true hsize, precedes_of_walk hf⟩

end ParsedFile

end BrighterCheck
