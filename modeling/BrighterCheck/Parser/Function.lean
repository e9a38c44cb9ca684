import BrighterCheck.Parser.Block

/-!
# Functions

The part of a `sub` or `function` behind its keyword and name: parameters, return type and body.
Named functions, methods and anonymous functions share it.
-/

namespace BrighterCheck.Parser

/-- A parameter with its default value and its type, both of which may be left out. -/
def parameter (nested : Nested) : Parser NumberedTree := do
  let name ← expectIdentifier .parameter
  let value ← after (.punctuator .equal) nested.expression
  let type ← optionalType
  let range := Range.bounding
    [some name.range, value.bind Tree.range, type.map Token.range]
  node (.parameter name value type) range

/-- Whether a token ends a parenthesised list. -/
def closesParen (k : TokenKind) : Bool :=
  k = .punctuator .closeParen

/-- The word that a function block ends with. -/
def functionWord (keyword : Token) : Keyword :=
  if keyword.kind = .keyword .subKw then .subKw else .functionKw

/-- A function, from its parameters on, whose keyword and name were read before. -/
def functionRest (nested : Nested) (keyword : Token) : Parser NumberedTree := do
  let _ ← expect (.punctuator .openParen)
  skipNewlines
  let parameters ← commaList closesParen skipNewlines (parameter nested)
  let _ ← expect (.punctuator .closeParen)
  let returns ← optionalType
  let word := functionWord keyword
  let body ← block nested (.block word)
  let finish ← expectEnd word
  node (.functionExpression keyword parameters returns body) (keyword.range.merge finish)

end BrighterCheck.Parser
