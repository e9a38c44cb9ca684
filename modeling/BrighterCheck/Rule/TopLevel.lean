import BrighterCheck.Diagnostic.Basic
import BrighterCheck.Tree.Basic

/-!
# The top level of a file

Outside functions, at the root of a file and in its namespaces, only declarations and the like may
stand. Libraries and imports come first in a file, with nothing but comments between them.
-/

namespace BrighterCheck

/-- Statements that may stand outside functions. -/
def NodeKind.isAllowedOutsideFunctions : NodeKind → Bool
  | .comment _ | .function _ | .classDeclaration .. | .enumDeclaration ..
  | .interfaceDeclaration .. | .library .. | .importStatement .. | .constDeclaration ..
  | .conditionalConst .. | .conditionalError _ | .conditionalBlock _ | .typecast ..
  | .aliasDeclaration .. => true
  | _ => false

namespace Tree

variable {ι : Type}

mutual

/-- The findings of a statement outside functions: inside a namespace its statements count. -/
def outsideFindings : Tree ι → List Finding
  | ⟨_, .namespaceDeclaration _, _, [_, ⟨_, .body, _, statements⟩]⟩ =>
    outsideFindingsAll statements
  | ⟨_, kind, range, _⟩ =>
    if kind.isNamespace || kind.isAllowedOutsideFunctions then []
    else [⟨.outsideFunction, range⟩]

/-- The findings of several statements outside functions. -/
def outsideFindingsAll : List (Tree ι) → List Finding
  | [] => []
  | t :: ts => outsideFindings t ++ outsideFindingsAll ts

end

/-- The statements that a file starts with, up to the first that is no directive or comment. -/
def leadingStatements (t : Tree ι) : List (Tree ι) :=
  t.children.takeWhile fun s =>
    match s.kind with
    | .comment _ | .library .. | .importStatement .. => true
    | _ => false

/-- Each node of some kind that is not among the leading statements of its file is reported. -/
def lateFindings (t : NumberedTree) (p : NodeKind → Bool) (v : Violation) : List Finding :=
  let leading := t.leadingStatements.map Tree.id
  (t.preorder.filter fun u => p u.kind && u.id ∉ leading).map fun u => ⟨v, u.range⟩

/-- Whether a statement names a library. -/
def isLibrary : NodeKind → Bool
  | .library .. => true
  | _ => false

/-- Whether a statement names a file. -/
def isImport : NodeKind → Bool
  | .importStatement .. => true
  | _ => false

/-- Libraries, and then imports, that do not stand at the top of their file are reported. -/
def directiveFindings (t : NumberedTree) : List Finding :=
  t.lateFindings isLibrary .misplacedLibrary ++ t.lateFindings isImport .misplacedImport

end Tree

end BrighterCheck
