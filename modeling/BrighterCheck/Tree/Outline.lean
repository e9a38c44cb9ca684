import BrighterCheck.Tree.Basic

/-!
# Outlines

An outline lists a tree line by line in pre-order: each node is indented by two blanks per
ancestor and shown with its kind, its label and its range.
-/

namespace BrighterCheck

namespace Tree

variable {ι : Type}

/-- The line of a node with `depth` ancestors. -/
def outlineLine (depth : Nat) (t : Tree ι) : String :=
  "".pushn ' ' (2 * depth) ++ t.kind.display ++
    ((t.kind.label?.map (" " ++ ·)).getD "") ++
    ((t.range.map (" @ " ++ ·.display)).getD "")

mutual

/-- The lines of a tree whose root has `depth` ancestors. -/
def outlineLines (depth : Nat) : Tree ι → List String
  | ⟨id, kind, range, children⟩ =>
    outlineLine depth ⟨id, kind, range, children⟩ :: outlineLinesAll (depth + 1) children

/-- The lines of several trees whose roots have `depth` ancestors. -/
def outlineLinesAll (depth : Nat) : List (Tree ι) → List String
  | [] => []
  | t :: ts => outlineLines depth t ++ outlineLinesAll depth ts

end

/-- The outline of a tree. -/
def outline (t : Tree ι) : String :=
  String.join ((outlineLines 0 t).map (· ++ "\n"))

end Tree

end BrighterCheck
