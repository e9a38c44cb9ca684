import BrighterCheck.Tree.Located

/-!
# Walking a tree

A walk enters a node, walks its children in order, and leaves the node. Every event is shown to a
visitor, which carries a state along. `traversal` lists the events by recursion; `walk` reaches the
same events with a stack of things to do.
-/

namespace BrighterCheck

variable {ι σ : Type}

/-- What happens at a node during a walk. -/
inductive Visit where
  | enter
  | exit
deriving DecidableEq

/-- An event of a walk: a node that is entered or left, in its place. -/
structure Event (ι : Type) where
  visit : Visit
  place : Located ι

namespace Event

/-- The node of an event. -/
def node (e : Event ι) : Tree ι :=
  e.place.node

/-- The parent of the node of an event. -/
def parent (e : Event ι) : Option (Tree ι) :=
  e.place.ancestors.head?

end Event

namespace Tree

mutual

/-- The events of a walk through a tree below `above`. -/
def traversal (above : List (Tree ι)) : Tree ι → List (Event ι)
  | ⟨id, kind, range, children⟩ =>
    let t := ⟨id, kind, range, children⟩
    ⟨.enter, ⟨t, above⟩⟩ :: (traversalAll (t :: above) children ++ [⟨.exit, ⟨t, above⟩⟩])

/-- The events of walks through several trees below `above`. -/
def traversalAll (above : List (Tree ι)) : List (Tree ι) → List (Event ι)
  | [] => []
  | t :: ts => traversal above t ++ traversalAll above ts

end

end Tree

namespace Located

/-- The children of a node, each in its place. -/
def children (l : Located ι) : List (Located ι) :=
  l.node.children.map fun t => ⟨t, l.node :: l.ancestors⟩

/-- Works off a stack of pending events, at most `n` of them, and shows each one to the visitor. -/
def walkStack (visitor : σ → Event ι → σ) : Nat → List (Event ι) → σ → σ
  | 0, _, s => s
  | _, [], s => s
  | n + 1, ⟨.exit, l⟩ :: stack, s => walkStack visitor n stack (visitor s ⟨.exit, l⟩)
  | n + 1, ⟨.enter, l⟩ :: stack, s =>
    walkStack visitor n (l.children.map (⟨.enter, ·⟩) ++ ⟨.exit, l⟩ :: stack)
      (visitor s ⟨.enter, l⟩)

/-- Walks through the tree at a node: there are two events for each of its nodes. -/
def walk (visitor : σ → Event ι → σ) (l : Located ι) (s : σ) : σ :=
  walkStack visitor (2 * l.node.size) [⟨.enter, l⟩] s

end Located

/-- The events of a walk through a tree below `parent`. -/
def Tree.walk (parent : Option (Tree ι)) (t : Tree ι) : List (Event ι) :=
  (Located.walk (fun events e => e :: events) ⟨t, parent.toList⟩ []).reverse

end BrighterCheck
