import BrighterCheck.Diagnostic.Basic
import BrighterCheck.Tree.Located

/-!
# Control flow

A `continue` belongs to the innermost loop around it, and may name the kind of that loop. A `return`
has a value exactly if the innermost function around it returns one.
-/

namespace BrighterCheck.Located

variable {ι : Type}

/-- The word that names a kind of loop; `for each` loops are called `for` as well. -/
def loopWord : NodeKind → String
  | .whileLoop _ => "while"
  | _ => "for"

/-- A `continue` outside every loop, or one that names another kind of loop, is reported. -/
def continueFindings (l : Located ι) (loop : Option Token) : List Finding :=
  match l.findAncestor? NodeKind.isLoop with
  | none => [⟨.illegalContinue, l.node.range⟩]
  | some enclosing =>
    let word := loopWord enclosing.kind
    match loop with
    | some stated =>
      if Ascii.sameWord stated.text word then []
      else [⟨.expectedToken word, some stated.range⟩]
    | none => []

/-- Whether a function returns nothing: it is declared so, or it is a `sub` without a type. -/
def isVoid (keyword : Token) (returns : Option Token) : Bool :=
  match returns with
  | some type => Ascii.sameWord type.text "void"
  | none => keyword.kind = .keyword .subKw

/-- The keyword and the return type of the innermost function around a node. -/
def enclosingFunction? (l : Located ι) : Option (Token × Option Token) :=
  l.ancestors.findSome? fun t =>
    match t.kind with
    | .functionExpression keyword returns => some (keyword, returns)
    | _ => none

/-- A value returned from a void function, or none from another one, is reported. -/
def returnFindings (l : Located ι) : List Finding :=
  match l.enclosingFunction? with
  | none => []
  | some (keyword, returns) =>
    let void := isVoid keyword returns
    let hasValue := !l.node.children.isEmpty
    let word := Ascii.lower keyword.text
    if void && hasValue then [⟨.voidReturnsValue word, l.node.range⟩]
    else if !void && !hasValue then [⟨.missingReturnValue word, l.node.range⟩]
    else []

end BrighterCheck.Located
