import BrighterCheck.Diagnostic.Basic
import BrighterCheck.Tree.Located

/-!
# Placement of declarations

Functions, classes, enums, interfaces, namespaces and constants are declared at the root of a file
or directly in a namespace.
-/

namespace BrighterCheck.Located

variable {ι : Type}

/-- Whether a node stands directly in the root body or in the body of a namespace. -/
def isNamespaceLevel (l : Located ι) : Bool :=
  match l.ancestors with
  | parent :: above => parent.kind.isBody && opensScope parent.kind above
  | [] => false

/-- The keyword of a declaration and the range of its name. -/
def declaration? (l : Located ι) : Option (Token × Option Range) :=
  match l.node.kind, l.node.children with
  | .enumDeclaration keyword name, _ | .classDeclaration keyword name _, _
  | .interfaceDeclaration keyword name _, _ | .constDeclaration keyword name, _ =>
    some (keyword, some name.range)
  | .namespaceDeclaration keyword, name :: _ => some (keyword, name.range)
  | .function name, ⟨_, .functionExpression keyword _, _, _⟩ :: _ =>
    some (keyword, some name.range)
  | _, _ => none

/-- A declaration in the wrong place is reported from its keyword to its name. -/
def placementFindings (l : Located ι) : List Finding :=
  match l.declaration? with
  | none => []
  | some (keyword, name) =>
    if l.isNamespaceLevel then []
    else
      [⟨.misplacedDeclaration (Ascii.lower keyword.text),
        Range.bounding [some keyword.range, name]⟩]

end BrighterCheck.Located
