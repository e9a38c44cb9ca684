import BrighterCheck.Rule.Validation
import BrighterCheck.Symbol.Registration
import BrighterCheck.Tree.Walk

/-!
# Analyses

The analysis of a file is its tree with the symbol tables filled in so far. A validation walks
through the tree, reports what breaks the rules and registers symbols as it enters the nodes. It
starts the tables and the diagnostics of the file afresh, so that it can be repeated.
-/

namespace BrighterCheck

/-- What a validation fills as it goes: the symbol tables and the diagnostics of a file. -/
structure Validation where
  scopes : Scopes
  sink : Sink

namespace Validation

/-- Reports findings behind the diagnostics that are there. -/
def report (v : Validation) (findings : List Finding) : Validation :=
  { v with sink := v.sink.addAll findings }

/-- Performs registrations one after the other. -/
def register (v : Validation) (registrations : List Registration) : Validation :=
  { v with scopes := registrations.foldl Scopes.register v.scopes }

/--
Enters a node: the rule for its kind is checked, and its symbols are registered. A function
registers its receiver before its parameters are counted, a declaration is registered once its
place is checked.
-/
def enter (v : Validation) (l : Located Nat) : Validation :=
  match l.node.kind with
  | .callfunc _ method => v.report (Tree.callfuncFindings method l.node.children.tail)
  | .enumDeclaration .. =>
    ((v.report l.placementFindings).report (Tree.enumFindings l.node.children)).register
      l.registrations
  | .classDeclaration .. | .namespaceDeclaration .. | .function .. | .interfaceDeclaration ..
  | .constDeclaration .. => (v.report l.placementFindings).register l.registrations
  | .dottedSet .. | .indexedSet .. => v.report l.node.assignmentFindings
  | .functionExpression .. =>
    (v.register l.registrations).report (Tree.parameterFindings l.node.children.dropLast)
  | .returnStatement _ => v.report l.returnFindings
  | .continueLoop _ loop => v.report (l.continueFindings loop)
  | .method .. | .assignment .. | .counter .. | .forEachLoop .. | .parameter ..
  | .catchClause .. | .dim .. => v.register l.registrations
  | _ => v

/-- Acts on the nodes that a walk enters; nothing is done where a node is left. -/
def visit (v : Validation) (e : Event Nat) : Validation :=
  match e.visit with
  | .enter => v.enter e.place
  | .exit => v

end Validation

/-- The tree of a file with the symbol tables of its scopes. -/
structure Analysis where
  tree : NumberedTree
  scopes : Scopes

namespace Analysis

/-- A tree without symbols. -/
def ofTree (t : NumberedTree) : Analysis :=
  ⟨t, .empty⟩

/-- Drops every symbol table. -/
def clearSymbols (a : Analysis) : Analysis :=
  { a with scopes := .empty }

/-- Adds a symbol to the innermost scope around a node. -/
def addSymbol (a : Analysis) (l : Located Nat) (e : SymbolEntry) : Analysis :=
  { a with scopes := a.scopes.add l e }

/--
Fills the symbol tables of a file and collects its diagnostics, forgetting earlier ones: on a walk
through the tree, then for the statements outside functions, and then, unless the file holds type
definitions, for the directives.
-/
def validate (a : Analysis) (typedef : Bool) (sink : Sink) : Analysis × Sink :=
  let walked :=
    Located.walk Validation.visit ⟨a.tree, []⟩ ⟨a.clearSymbols.scopes, sink.clear⟩
  let outside := walked.report (Tree.outsideFindingsAll a.tree.children)
  let checked := if typedef then outside else outside.report a.tree.directiveFindings
  ({ a with scopes := checked.scopes }, checked.sink)

end Analysis

end BrighterCheck
