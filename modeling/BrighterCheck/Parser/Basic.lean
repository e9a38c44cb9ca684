import BrighterCheck.Parser.Fault
import BrighterCheck.Tree.Basic
import BrighterCheck.Tree.Store

/-!
# Parsers over tokens

A parser reads tokens, makes nodes and answers a value, or refuses; both answers carry what is left
to work on. All parsers are built from the few that look at the current token, take it or make a
node, and from one loop, which goes on as long as its steps take tokens.
-/

namespace BrighterCheck

/-- The numbers of the libraries and of the imports of a file, in the order of the source. -/
@[ext]
structure References where
  libraries : List Nat
  imports : List Nat
deriving DecidableEq

namespace References

/-- No references. -/
def empty : References :=
  ⟨[], []⟩

/-- Notes the library with the number `n` behind the others. -/
def addLibrary (r : References) (n : Nat) : References :=
  { r with libraries := r.libraries ++ [n] }

/-- Notes the import with the number `n` behind the others. -/
def addImport (r : References) (n : Nat) : References :=
  { r with imports := r.imports ++ [n] }

end References

/--
What a parser works on: the tokens that are left with the token that stands for the end of the
source, the nodes that were made, and the references that were read.
-/
structure Reading where
  tokens : List Token
  eof : Token
  store : Store
  references : References

namespace Reading

/-- The token at the front; at the end of the source, the token that stands for the end. -/
def current (s : Reading) : Token :=
  match s.tokens with
  | [] => s.eof
  | t :: _ => t

/-- The number of the next node. -/
def next (s : Reading) : Nat :=
  s.store.size

/-- The kind of the token behind the front. -/
def following (s : Reading) : TokenKind :=
  match s.tokens with
  | _ :: t :: _ => t.kind
  | _ => .eof

end Reading

/-- A parser reads tokens and answers a value or a syntax error. -/
abbrev Parser := EStateM SyntaxError Reading

namespace Parser

variable {α : Type}

/-- The kind of the current token. -/
def kind : Parser TokenKind :=
  fun s => .ok s.current.kind s

/-- The kind of the token after the current one. -/
def followingKind : Parser TokenKind :=
  fun s => .ok s.following s

/-- Takes the current token; the end of the source stays where it is. -/
def advance : Parser Token :=
  fun s =>
    match s.tokens with
    | [] => .ok s.eof s
    | t :: ts => .ok t { s with tokens := ts }

/-- Refuses the current token. -/
def refuse (fault : Token → SyntaxFault) : Parser α :=
  fun s => .error ⟨fault s.current, s.current.range⟩ s

/-- Refuses something that was read before. -/
def refuseAt (fault : SyntaxFault) (range : Range) : Parser α :=
  fun s => .error ⟨fault, range⟩ s

/-- Refuses the current token, because something else should stand there. -/
def refuseFor (what : Expected) : Parser α :=
  refuse fun t => .expected what t.kind

/-- A new node of the given form, under the next number. -/
def node (form : Form NumberedTree) (range : Option Range) : Parser NumberedTree :=
  fun s => .ok ⟨s.next, form.kind, range, form.children⟩
    { s with store := s.store.alloc (form.map Tree.id) range }

/-- A new node of the given form that covers one token. -/
def leaf (form : Form NumberedTree) (token : Token) : Parser NumberedTree :=
  node form (some token.range)

/-- A new body with the given statements, which covers them all. -/
def body (statements : List NumberedTree) : Parser NumberedTree :=
  node (.body statements) (Range.bounding (statements.map Tree.range))

/-- Changes nodes that were made. -/
def changeStore (change : Store → Store) : Parser Unit :=
  fun s => .ok () { s with store := change s.store }

/-- The node `t`, grown to cover `range` too. -/
def extend (t : NumberedTree) (range : Range) : Parser NumberedTree := do
  changeStore (·.extend t.id range)
  return t.extend range

/-- Changes the references that were read. -/
def noteReference (change : References → References) : Parser Unit :=
  fun s => .ok () { s with references := change s.references }

/-- Repeats `step` from `a` on until it declines or takes no token. -/
def iterate (step : α → Parser (Option α)) (a : α) : Parser α :=
  fun s =>
    match step a s with
    | .error e s => .error e s
    | .ok none s => .ok a s
    | .ok (some b) s' =>
      if s'.tokens.length < s.tokens.length then iterate step b s' else .ok b s'
termination_by s => s.tokens.length

/-- The values that `item` reads one after the other until it declines. -/
def many (item : Parser (Option α)) : Parser (List α) := do
  let reversed ← iterate (fun read => do return (← item).map (· :: read)) []
  return reversed.reverse

/-- Whether the current token is of the given kind. -/
def isAt (wanted : TokenKind) : Parser Bool := do
  return (← kind) = wanted

/-- Takes the current token if its kind is among those wanted. -/
def acceptIf (wanted : TokenKind → Bool) : Parser (Option Token) := do
  if wanted (← kind) then some <$> advance else return none

/-- Takes the current token if it is of the given kind. -/
def accept (wanted : TokenKind) : Parser (Option Token) :=
  acceptIf (· = wanted)

/-- Takes the current token, which has to be of the given kind. -/
def expect (wanted : TokenKind) : Parser Token := do
  if ← isAt wanted then advance else refuseFor (.token wanted)

/-- Takes an identifier. -/
def expectIdentifier (role : NameRole) : Parser Token := do
  if ← isAt .identifier then advance else refuseFor (.name role)

/-- Takes an identifier, or a keyword that is used as one. -/
def expectName (role : NameRole) : Parser Token := do
  if (← kind).isNameLike then Token.asIdentifier <$> advance else refuseFor (.name role)

/-- What `rest` reads after a token of the given kind, if there is such a token. -/
def after (mark : TokenKind) (rest : Parser α) : Parser (Option α) := do
  match ← accept mark with
  | none => return none
  | some _ => some <$> rest

/-- Passes over tokens of the kinds given. -/
def skip (unwanted : TokenKind → Bool) : Parser Unit := do
  let _ ← many (acceptIf unwanted)

/-- Line ends and colons, which separate statements. -/
def isSeparator : TokenKind → Bool
  | .newline | .punctuator .colon => true
  | _ => false

/-- Passes over line ends and colons. -/
def skipSeparators : Parser Unit :=
  skip isSeparator

/-- Line ends and comments, which mean nothing inside brackets. -/
def isBlank : TokenKind → Bool
  | .newline | .comment => true
  | _ => false

/-- Passes over line ends and comments. -/
def skipNewlines : Parser Unit :=
  skip isBlank

/--
Items with commas between them, up to a token of the kind `close` or to an item without a comma.
Before and after each comma `blanks` is passed over.
-/
def commaList (close : TokenKind → Bool) (blanks : Parser Unit) (item : Parser α) :
    Parser (List α) := do
  let step : List α × Bool → Parser (Option (List α × Bool)) := fun (read, goesOn) => do
    if !goesOn || close (← kind) then
      return none
    else
      let a ← item
      blanks
      match ← accept (.punctuator .comma) with
      | none => return some (a :: read, false)
      | some _ =>
        blanks
        return some (a :: read, true)
  let (reversed, _) ← iterate step ([], true)
  return reversed.reverse

end Parser

end BrighterCheck
