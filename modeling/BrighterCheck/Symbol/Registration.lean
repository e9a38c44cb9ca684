import BrighterCheck.Symbol.Scopes

/-!
# Registrations

Which symbols each node declares, and in which scope: around itself, or around its parent.
-/

namespace BrighterCheck

/--
A symbol, to be added to the innermost scope around a node. One that yields is not added where
the scope has a symbol of its name.
-/
structure Registration where
  place : Located Nat
  entry : SymbolEntry
  yields : Bool := false

/-- Performs a registration. -/
def Scopes.register (s : Scopes) (r : Registration) : Scopes :=
  if r.yields && s.containsLocal r.place r.entry.name then s else s.add r.place r.entry

namespace Tree

variable {ι : Type}

/-- The type of a literal, which may stand behind one sign; dynamic if the node is none. -/
def literalType (t : Tree ι) : ScriptType :=
  match t.literal? with
  | some (token, _) => .ofName token.kind.literalTypeName
  | none => .dynamic

/-- The name and the type of a parameter: its declared type, else that of its default value. -/
def parameter? : Tree ι → Option (String × ScriptType)
  | ⟨_, .parameter name (some type), _, _⟩ => some (name.text, .ofName type.text)
  | ⟨_, .parameter name none, _, value :: _⟩ => some (name.text, value.literalType)
  | ⟨_, .parameter name none, _, []⟩ => some (name.text, .dynamic)
  | _ => none

/-- The type that a function returns: its declared type, else nothing for a `sub`. -/
def returnType (keyword : Token) (returns : Option Token) : ScriptType :=
  match returns with
  | some type => .ofName type.text
  | none => if keyword.kind = .keyword .subKw then .void else .dynamic

/-- The type of a function expression under the given name. -/
def signature (name : String) : Tree ι → ScriptType
  | ⟨_, .functionExpression keyword returns, _, parts⟩ =>
    .function (some name) (parts.filterMap parameter?) (returnType keyword returns)
      (keyword.kind = .keyword .subKw)
  | _ => .function (some name) [] .dynamic false

/-- The type of a function expression has its parameters and what it returns. -/
theorem signature_eq {f : Tree ι} {keyword : Token} {returns : Option Token} (name : String)
    (hk : f.kind = .functionExpression keyword returns) :
    f.signature name = .function (some name) (f.children.filterMap parameter?)
      (returnType keyword returns) (keyword.kind = .keyword .subKw) := by
  obtain ⟨id, kind, range, parts⟩ := f
  cases hk
  rfl

end Tree

namespace Located

/-- A symbol in the innermost scope around `l`, named by `token`. -/
def declare (l : Located Nat) (token : Token) (type : ScriptType) : Registration :=
  { place := l, entry := ⟨token.text, some token.range, type⟩ }

/-- A symbol without a place in the source, in the innermost scope around `l`. -/
def declareImplicit (l : Located Nat) (name : String) : Registration :=
  { place := l, entry := ⟨name, none, .dynamic⟩ }

/-- A symbol in the innermost scope around the parent of `l`, named by `token`. -/
def declareOutside (l : Located Nat) (token : Token) (type : ScriptType) : List Registration :=
  l.parent?.toList.map fun p => p.declare token type

/-- The name under which a function can be reached from every file. -/
def flattenedName (namespaces : List String) (name : String) : String :=
  ((".".intercalate namespaces).map fun c => if c = '.' then '_' else c) ++ "_" ++ name

/--
The symbols of a named function: its name in the scope around it and, inside a namespace, its
flattened name at the root of the file. Both have the same type.
-/
def functionSymbols (l : Located Nat) (name : Token) (function : NumberedTree) :
    List Registration :=
  match l.namespaceNames? with
  | none | some [] => l.declareOutside name (function.signature name.text)
  | some namespaces =>
    let flattened := flattenedName namespaces name.text
    let type := function.signature flattened
    l.declareOutside name type ++
      [{ place := l.root, entry := ⟨flattened, some name.range, type⟩ }]

/-- The symbol of a namespace: the first segment of its name, in the scope around it. -/
def namespaceSymbols (l : Located Nat) (name : NumberedTree) : List Registration :=
  match name.leadingName? with
  | some leading => l.declareOutside leading (.namespaceType leading.text)
  | none => []

/-- The symbols that a node declares. -/
def registrations (l : Located Nat) : List Registration :=
  match l.node.kind, l.node.children with
  | .assignment name _, [value] | .counter name _, [value] => [l.declare name value.literalType]
  | .forEachLoop _ item, _ => [l.declare item .dynamic]
  | .dim _ name, _ => [l.declare name (.array .dynamic)]
  | .catchClause _ (some exception), _ => [l.declare exception .dynamic]
  | .parameter name _, _ =>
    [l.declare name ((l.node.parameter?.map Prod.snd).getD .dynamic)]
  | .functionExpression .., _ => [{ l.declareImplicit "m" with yields := true }]
  | .method .., [function] => [declareImplicit ⟨function, l.node :: l.ancestors⟩ "super"]
  | .enumDeclaration _ name, _ => l.declareOutside name (.enumType name.text)
  | .classDeclaration _ name _, _ => l.declareOutside name (.custom name.text)
  | .interfaceDeclaration _ name _, _ => l.declareOutside name (.interfaceType [])
  | .constDeclaration _ name, [value] => l.declareOutside name value.literalType
  | .namespaceDeclaration _, name :: _ => l.namespaceSymbols name
  | .function name, [⟨id, .functionExpression keyword returns, range, parts⟩] =>
    l.functionSymbols name ⟨id, .functionExpression keyword returns, range, parts⟩
  | _, _ => []

end Located

end BrighterCheck
