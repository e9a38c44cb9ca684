import BrighterCheck.Token.Keyword
import BrighterCheck.Token.Punctuator

/-!
# Token kinds

What a token is, apart from its text and place. Each kind has a name for token listings and a
wording for error messages.
-/

namespace BrighterCheck

/-- The literals that are not spelled as words. -/
inductive LiteralKind where
  | string
  | integer
  | longInteger
  | float
  | double
deriving DecidableEq, Inhabited

namespace LiteralKind

/-- The name of a literal kind in token listings. -/
def name : LiteralKind → String
  | .string => "StringLiteral"
  | .integer => "IntegerLiteral"
  | .longInteger => "LongIntegerLiteral"
  | .float => "FloatLiteral"
  | .double => "DoubleLiteral"

/-- The name of the type that such a literal has. -/
def typeName : LiteralKind → String
  | .string => "string"
  | .integer => "integer"
  | .longInteger => "longinteger"
  | .float => "float"
  | .double => "double"

end LiteralKind

/-- The words of conditional compilation, each written after a number sign. -/
inductive Directive where
  | const
  | ifDirective
  | elseDirective
  | endDirective
  | endIf
  | error
deriving DecidableEq, Inhabited

namespace Directive

/-- The name of a directive in token listings. -/
def name : Directive → String
  | .const => "HashConst"
  | .ifDirective => "HashIf"
  | .elseDirective => "HashElse"
  | .endDirective => "HashEnd"
  | .endIf => "HashEndIf"
  | .error => "HashError"

/-- A directive as it is written, in small letters. -/
def spelling : Directive → String
  | .const => "#const"
  | .ifDirective => "#if"
  | .elseDirective => "#else"
  | .endDirective => "#end"
  | .endIf => "#endif"
  | .error => "#error"

end Directive

/-- What a token is. The kind `forEach` arises only when two keywords are joined. -/
inductive TokenKind where
  | keyword (word : Keyword)
  | literal (kind : LiteralKind)
  | identifier
  | comment
  | directive (directive : Directive)
  | punctuator (mark : Punctuator)
  | newline
  | forEach
  | eof
deriving DecidableEq, Inhabited

namespace TokenKind

/-- The name of a kind in token listings. -/
def name : TokenKind → String
  | .keyword w => w.name
  | .literal l => l.name
  | .identifier => "Identifier"
  | .comment => "Comment"
  | .directive d => d.name
  | .punctuator p => p.name
  | .newline => "Newline"
  | .forEach => "ForEach"
  | .eof => "Eof"

/-- The wording of a kind in error messages. -/
def display : TokenKind → String
  | .keyword w => w.spelling
  | .literal l => l.typeName ++ " literal"
  | .identifier => "identifier"
  | .comment => "comment"
  | .directive d => d.spelling
  | .punctuator p => p.spelling
  | .newline => "newline"
  | .forEach => "for each"
  | .eof => "EOF"

/-- Words that can still be used as property names. -/
def isKeyword : TokenKind → Bool
  | .keyword _ => true
  | _ => false

/-- Kinds whose tokens are values by themselves. -/
def isLiteral : TokenKind → Bool
  | .literal _ | .keyword .trueKw | .keyword .falseKw | .keyword .invalidKw => true
  | _ => false

/-- Operators that turn an assignment into a compound assignment. -/
def isCompoundAssignment : TokenKind → Bool
  | .punctuator p => p.isCompoundAssignment
  | _ => false

/-- The type of a literal of this kind, by name; `dynamic` if the kind is no literal. -/
def literalTypeName : TokenKind → String
  | .literal l => l.typeName
  | .keyword .trueKw | .keyword .falseKw => "boolean"
  | .keyword .invalidKw => "invalid"
  | _ => "dynamic"

/-- Kinds that can stand where a name is wanted. -/
def isNameLike : TokenKind → Bool
  | .identifier | .keyword _ => true
  | _ => false

end TokenKind

end BrighterCheck
