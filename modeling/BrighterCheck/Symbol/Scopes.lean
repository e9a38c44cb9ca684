import BrighterCheck.Symbol.Table
import BrighterCheck.Tree.Located

/-!
# Scopes

The symbol tables of the scopes of one tree, by the number of the scope. A table is made when the
first symbol is added to it; a name is looked up from the innermost scope outwards.
-/

namespace BrighterCheck

/-- The symbol tables of the scopes that own one, by number. -/
structure Scopes where
  tables : Dictionary Nat SymbolTable

namespace Scopes

/-- No scope owns a table. -/
def empty : Scopes :=
  ⟨[]⟩

/-- The table of the scope with the number `n`. -/
def table? (s : Scopes) (n : Nat) : Option SymbolTable :=
  s.tables.find? n

/-- Adds a symbol to the innermost scope around a node. -/
def add (s : Scopes) (l : Located Nat) (e : SymbolEntry) : Scopes :=
  let n := l.scope.node.id
  let table := (s.table? n).getD (.empty (l.outerScope?.map (·.node.id)))
  ⟨s.tables.insert n (table.add e)⟩

/-- Whether the innermost scope around a node has a symbol with the given name. -/
def containsLocal (s : Scopes) (l : Located Nat) (name : String) : Bool :=
  (s.table? l.scope.node.id).any (·.contains name)

/-- The symbol with the given name in the table of one scope. -/
def symbol? (s : Scopes) (n : Nat) (name : String) : Option SymbolEntry :=
  (s.table? n).bind fun table => table.get? name

/--
The scope to be asked after another one: the one that its table names, wherever it stands in the
tree, or the scope around it if it has no table.
-/
def next? (s : Scopes) (scope : Located Nat) : Option (Located Nat) :=
  match s.table? scope.node.id with
  | some table => table.parent.bind scope.root.node.find?
  | none => scope.parent?.map Located.scope

/--
Asks a scope for the symbol with the given name, then the next one, until one has it or there is no
next one. After `steps` scopes the search is given up without an answer.
-/
def searchWithin (s : Scopes) (name : String) :
    (steps : Nat) → Option (Located Nat) → Option (Option SymbolEntry)
  | _, none => some none
  | 0, some _ => none
  | steps + 1, some scope =>
    match s.symbol? scope.node.id name with
    | some e => some (some e)
    | none => searchWithin s name steps (s.next? scope)

/--
The symbol with the given name that is visible at a node. No more scopes need to be asked than there
are nodes from this one to the root.
-/
def lookup (s : Scopes) (l : Located Nat) (name : String) : Option SymbolEntry :=
  (s.searchWithin name (l.ancestors.length + 1) (some l.scope)).getD none

/-- The line of a scope in a listing: its node, its place, and the scope around it. -/
def headingLine (scope : NumberedTree) (table : SymbolTable) : String :=
  let place := (scope.range.map (" @ " ++ ·.display)).getD ""
  let parent := (table.parent.map fun n => s!" (parent #{n})").getD ""
  s!"{scope.kind.display} #{scope.id}{place}{parent}"

/-- A listing of the tables of a tree, each with its scope and its symbols. -/
def listing (s : Scopes) (tree : NumberedTree) : String :=
  String.join <| s.tables.flatMap fun (n, table) =>
    match tree.find? n with
    | none => []
    | some scope =>
      (headingLine scope.node table :: table.entries.map fun e =>
        s!"  {e.name}: {e.type.display}").map (· ++ "\n")

end Scopes

end BrighterCheck
