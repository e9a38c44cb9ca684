import BrighterCheck.Parser.Statement
import BrighterCheck.Lexer.Cursor

/-!
# Files

A file is a list of statements up to the end of the source. Statements and expressions nest in each
other; every nesting takes a token, so a depth of more than the number of tokens is never used up.
-/

namespace BrighterCheck

namespace Parser

mutual

/-- An expression in a stream of less than `depth` tokens. -/
def expressionWithin : (depth : Nat) → Parser NumberedTree
  | 0 => refuseFor .expression
  | depth + 1 => expression ⟨expressionWithin depth, statementWithin depth⟩

/-- A statement in a stream of less than `depth` tokens. -/
def statementWithin : (depth : Nat) → Parser NumberedTree
  | 0 => refuseFor .expression
  | depth + 1 => statement ⟨expressionWithin depth, statementWithin depth⟩

end

/-- The productions for a stream of less than `depth` tokens. -/
def nestedWithin (depth : Nat) : Nested :=
  ⟨expressionWithin depth, statementWithin depth⟩

/-- The statements of a whole file. -/
def fileStatements : Parser (List NumberedTree) :=
  fun s => statements (nestedWithin (s.tokens.length + 1)) .none s

end Parser

namespace Reading

/-- The start of a file, with the root as the only node. -/
def start (s : TokenStream) : Reading :=
  ⟨s.tokens, s.eof, .start, .empty⟩

end Reading

/-- Why a source is no file: its text holds something that is no token, or its tokens no file. -/
inductive SourceError where
  | lexical (error : LexicalError)
  | grammatical (error : SyntaxError)
deriving DecidableEq

namespace SourceError

/-- Where an error is reported. -/
def range : SourceError → Range
  | .lexical e => e.range
  | .grammatical e => e.range

/-- The wording of an error, without its place. -/
def message : SourceError → String
  | .lexical e => e.fault.message
  | .grammatical e => e.fault.message

/-- The part of the work in which an error is found. -/
def stage : SourceError → String
  | .lexical _ => "Lexer"
  | .grammatical _ => "Parser"

/-- An error with its stage and its place. -/
def display (e : SourceError) : String :=
  s!"{e.stage} error at {e.range.display}: {e.message}"

end SourceError

/--
A file that was read: its tokens, its tree, the nodes that were made for it, and its references.
-/
structure ParsedFile where
  stream : TokenStream
  tree : NumberedTree
  store : Store
  references : References

namespace ParsedFile

/-- The number of nodes that were made for a file. -/
def nodeCount (f : ParsedFile) : Nat :=
  f.store.size

/-- The root of a file with the given statements. -/
def root (statements : List NumberedTree) : NumberedTree :=
  ⟨0, .body, Range.bounding (statements.map Tree.range), statements⟩

/-- The file that is left when the statements of its root were read: they are filled in there. -/
def ofStatements (s : TokenStream) (statements : List NumberedTree) (rest : Reading) : ParsedFile :=
  let tree := root statements
  ⟨s, tree, rest.store.replace 0 (.body (statements.map Tree.id)) tree.range, rest.references⟩

/-- Filling in the root makes no node. -/
@[simp]
theorem nodeCount_ofStatements (s : TokenStream) (statements : List NumberedTree) (rest : Reading) :
    (ofStatements s statements rest).nodeCount = rest.next :=
  Store.size_replace ..

/-- Reads the tokens of a file. -/
def ofStream (s : TokenStream) : Except SyntaxError ParsedFile :=
  match Parser.fileStatements (.start s) with
  | .ok statements rest => .ok (ofStatements s statements rest)
  | .error e _ => .error e

/-- Reads a source. -/
def ofSource (source : String) : Except SourceError ParsedFile :=
  match TokenStream.ofSource source with
  | .error e => .error (.lexical e)
  | .ok s => (ofStream s).mapError .grammatical

/-- The nodes of some kind, in source order. -/
def nodesOf (f : ParsedFile) (p : NodeKind → Bool) : List NumberedTree :=
  f.tree.preorder.filter fun t => p t.kind

end ParsedFile

end BrighterCheck
