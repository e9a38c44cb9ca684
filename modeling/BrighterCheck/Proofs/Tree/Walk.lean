import BrighterCheck.Tree.Walk

/-!
# What a walk meets

A walk with a stack meets the events of the recursive traversal (`walk_eq_foldl`), and the nodes
that it enters are the nodes of the tree in pre-order. So a visitor that acts on entering only is
the same as a fold over the nodes.
-/

namespace BrighterCheck

variable {ι σ : Type}

namespace Located

variable (visitor : σ → Event ι → σ)

mutual

/-- A pending node is worked off with everything below it before the rest of the stack. -/
theorem walkStack_enter (above : List (Tree ι)) : (t : Tree ι) → (n : Nat) →
    (stack : List (Event ι)) → (s : σ) →
    walkStack visitor (2 * t.size + n) (⟨.enter, ⟨t, above⟩⟩ :: stack) s =
      walkStack visitor n stack ((t.traversal above).foldl visitor s)
  | ⟨id, kind, range, children⟩, n, stack, s => by
    have hsize : 2 * (Tree.mk id kind range children).size + n =
        2 * Tree.sizeAll children + (n + 1) + 1 := by
      rw [Tree.size]
      omega
    -- The children come first, then the node is left, and only then follows the rest of the stack.
    have hbelow := walkStack_enterAll (⟨id, kind, range, children⟩ :: above) children (n + 1)
      (⟨.exit, ⟨⟨id, kind, range, children⟩, above⟩⟩ :: stack)
      (visitor s ⟨.enter, ⟨⟨id, kind, range, children⟩, above⟩⟩)
    rw [hsize, walkStack, Located.children, List.map_map, Function.comp_def, hbelow, walkStack,
      Tree.traversal, List.foldl_cons, List.foldl_append]
    rfl

theorem walkStack_enterAll (above : List (Tree ι)) : (ts : List (Tree ι)) → (n : Nat) →
    (stack : List (Event ι)) → (s : σ) →
    walkStack visitor (2 * Tree.sizeAll ts + n)
        (ts.map (fun t => ⟨.enter, ⟨t, above⟩⟩) ++ stack) s =
      walkStack visitor n stack ((Tree.traversalAll above ts).foldl visitor s)
  | [], n, stack, s => by simp [Tree.sizeAll, Tree.traversalAll]
  | t :: ts, n, stack, s => by
    have hsize : 2 * Tree.sizeAll (t :: ts) + n = 2 * t.size + (2 * Tree.sizeAll ts + n) := by
      rw [Tree.sizeAll]
      omega
    rw [hsize, List.map_cons, List.cons_append, walkStack_enter above t,
      walkStack_enterAll above ts, Tree.traversalAll, List.foldl_append]

end

/-- A walk shows the visitor the events of the traversal. -/
theorem walk_eq_foldl (l : Located ι) (s : σ) :
    l.walk visitor s = (l.node.traversal l.ancestors).foldl visitor s := by
  have h := walkStack_enter visitor l.ancestors l.node 0 [] s
  rwa [Nat.add_zero, walkStack] at h

end Located

/-- The node that an event enters, if it enters one. -/
def Event.entered? (e : Event ι) : Option (Located ι) :=
  match e.visit with
  | .enter => some e.place
  | .exit => none

namespace Tree

mutual

/-- The nodes are entered in pre-order. -/
theorem filterMap_entered_traversal (above : List (Tree ι)) : (t : Tree ι) →
    (t.traversal above).filterMap Event.entered? = locatedBelow above t
  | ⟨id, kind, range, children⟩ => by
    simp [traversal, locatedBelow, Event.entered?, filterMap_entered_traversalAll _ children]

theorem filterMap_entered_traversalAll (above : List (Tree ι)) : (ts : List (Tree ι)) →
    (traversalAll above ts).filterMap Event.entered? = locatedBelowAll above ts
  | [] => rfl
  | t :: ts => by
    simp [traversalAll, locatedBelowAll, filterMap_entered_traversal above t,
      filterMap_entered_traversalAll above ts]

end

end Tree

end BrighterCheck
