import BrighterCheck.Rule.AssignmentTarget
import BrighterCheck.Rule.ControlFlow
import BrighterCheck.Rule.Enumeration
import BrighterCheck.Rule.Limits
import BrighterCheck.Rule.Placement
import BrighterCheck.Rule.TopLevel

/-!
# Validation

The findings of a file are those of its nodes in pre-order, then those of the statements outside
functions, and then those of the directives, which are not checked in type definitions.
-/

namespace BrighterCheck

/-- The findings of one node, which depend on the node and the kinds above it only. -/
def Located.findings {ι : Type} (l : Located ι) : List Finding :=
  match l.node.kind with
  | .callfunc _ method => Tree.callfuncFindings method l.node.children.tail
  | .enumDeclaration .. => l.placementFindings ++ Tree.enumFindings l.node.children
  | .dottedSet .. | .indexedSet .. => l.node.assignmentFindings
  | .functionExpression .. => Tree.parameterFindings l.node.children.dropLast
  | .returnStatement _ => l.returnFindings
  | .continueLoop _ loop => l.continueFindings loop
  | _ => l.placementFindings

/-- The findings of a file. -/
def Tree.findings (t : NumberedTree) (typedef : Bool) : List Finding :=
  t.located.flatMap Located.findings ++ Tree.outsideFindingsAll t.children ++
    if typedef then [] else t.directiveFindings

end BrighterCheck
