import BrighterCheck.Parser.Basic

/-!
# Names, blocks and their ends

The parts that many statements share: type names, dotted names, statement lists, and the words that
end a block. A block ends at `end` followed by its word, or at both words written as one where the
language has such a word.
-/

namespace BrighterCheck

/-- The two kinds of node that occur inside others. -/
structure Nested where
  expression : Parser NumberedTree
  statement : Parser NumberedTree

/-- Where a statement list ends, told by the kinds of the current token and the one after it. -/
abbrev Ending := TokenKind → TokenKind → Bool

namespace Ending

/-- The end of a block that `word` starts. -/
def block (word : Keyword) : Ending := fun current next =>
  current = .keyword .endKw ∧ next = .keyword word ∨
    word.joinedEnd?.any fun joined => current = .keyword joined

/-- The end of a `for` block, which `next` ends as well. -/
def forBlock : Ending := fun current next =>
  block .forKw current next || current = .keyword .nextKw

/-- The end of a conditional block. -/
def conditional : Ending := fun current next =>
  current = .directive .endIf ∨
    current = .directive .endDirective ∧ next = .keyword .ifKw

/-- Either a token of the kind `mark` or the ending `e`. -/
def orAt (mark : TokenKind) (e : Ending) : Ending := fun current next =>
  current = mark || e current next

/-- Nothing but the end of the source. -/
def none : Ending := fun _ _ => false

end Ending

namespace Parser

/-- Whether a statement list ends here. -/
def isAtEnding (e : Ending) : Parser Bool := do
  return e (← kind) (← followingKind)

/-- Kinds of token that can follow a statement. -/
def endsStatement : TokenKind → Bool
  | .newline | .punctuator .colon | .comment | .eof => true
  | _ => false

/-- Kinds of token where an optional expression is left out. -/
def endsExpression (k : TokenKind) : Bool :=
  endsStatement k || k = .keyword .elseKw

/-- Kinds of token that end a line. -/
def endsLine : TokenKind → Bool
  | .newline | .comment | .eof => true
  | _ => false

/-- A name and the dotted names after it as one token. -/
def typeName : Parser Token := do
  let first ← expectName .typeName
  iterate (fun read => after (.punctuator .dot) do
    return .join .identifier "." read (← expectName .typeName)) first

/-- The type after `as`, if there is one. -/
def optionalType : Parser (Option Token) :=
  after (.keyword .asKw) typeName

/-- A dotted access to `object`. -/
def dottedAccess (object : NumberedTree) (dot name : Token) : Parser NumberedTree :=
  node (.dottedGet object dot name) (Range.bounding [object.range, some name.range])

/-- An identifier and the dotted names after it as a chain of accesses. -/
def qualifiedName (role : NameRole) : Parser NumberedTree := do
  let first ← expectIdentifier role
  iterate (fun object => do
    match ← accept (.punctuator .dot) with
    | none => return none
    | some dot => some <$> dottedAccess object dot (← expectName role))
    (← leaf (.name first) first)

/-- A comment as a node. -/
def comment : Parser NumberedTree := do
  let token ← advance
  leaf (.comment token) token

/-- The next statement before `e` or the end of the source, which a separator has to follow. -/
def nextStatement (nested : Nested) (e : Ending) : Parser (Option NumberedTree) := do
  skipSeparators
  if (← isAt .eof) || (← isAtEnding e) then
    return none
  else
    let statement ← nested.statement
    if endsStatement (← kind) then return some statement else refuseFor .separator

/-- Statements up to `e` or the end of the source. -/
def statements (nested : Nested) (e : Ending) : Parser (List NumberedTree) :=
  many (nextStatement nested e)

/-- Statements up to `e` or the end of the source, as a body. -/
def block (nested : Nested) (e : Ending) : Parser NumberedTree := do
  body (← statements nested e)

/-- Takes two tokens, and answers the range that they cover. -/
def advanceTwo : Parser Range := do
  let first ← advance
  let second ← advance
  return first.range.merge second.range

/-- Takes the end of a block that `word` starts. -/
def expectEnd (word : Keyword) : Parser Range := do
  match ← acceptIf (fun k => word.joinedEnd?.any (k = .keyword ·)) with
  | some joined => return joined.range
  | none =>
    if (← isAt (.keyword .endKw)) && (← followingKind) = .keyword word then
      advanceTwo
    else
      refuseFor (.blockEnd word)

/-- Members of a declaration up to the end of the block that `word` starts. -/
def members (word : Keyword) (member : Parser NumberedTree) : Parser (List NumberedTree) :=
  many do
    skipSeparators
    if (← isAt .eof) || (← isAtEnding (.block word)) then
      return none
    else if ← isAt .comment then
      some <$> comment
    else
      some <$> member

end Parser

end BrighterCheck
