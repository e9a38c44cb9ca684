import BrighterCheck.Token.Basic

/-!
# Syntax errors

Why a list of tokens is no file: what was expected where, and what stood there instead.
-/

namespace BrighterCheck

/-- What a name that is missing would have named. -/
inductive NameRole where
  | typeName
  | constant
  | aliasName
  | array
  | loopVariable
  | loopCounter
  | function
  | parameter
  | namespaceName
  | className
  | method
  | field
  | interfaceName
  | interfaceMember
  | enumName
  | enumMember
  | property
  | key
deriving DecidableEq

/-- The wording of a role in error messages. -/
def NameRole.display : NameRole → String
  | .typeName => "type name"
  | .constant => "constant name"
  | .aliasName => "alias name"
  | .array => "array name"
  | .loopVariable => "loop variable"
  | .loopCounter => "loop counter"
  | .function => "function name"
  | .parameter => "parameter name"
  | .namespaceName => "namespace name"
  | .className => "class name"
  | .method => "method name"
  | .field => "field name"
  | .interfaceName => "interface name"
  | .interfaceMember => "interface member name"
  | .enumName => "enum name"
  | .enumMember => "enum member name"
  | .property => "property name"
  | .key => "key"

/-- What would have been right at a place where something else stands. -/
inductive Expected where
  | token (kind : TokenKind)
  | name (role : NameRole)
  | expression
  | separator
  | blockEnd (word : Keyword)
  | conditionalEnd
deriving DecidableEq

/-- The wording of an expectation in error messages. -/
def Expected.display : Expected → String
  | .token kind => kind.display
  | .name role => role.display
  | .expression => "expression"
  | .separator => "newline or ':' after statement"
  | .blockEnd word => s!"'end {word.spelling}'"
  | .conditionalEnd => "'#end if'"

/-- Why the tokens from some place on are no part of a file. -/
inductive SyntaxFault where
  | expected (what : Expected) (found : TokenKind)
  | unexpected (text : String)
  | notAssignable
deriving DecidableEq

/-- The wording of a syntax fault. -/
def SyntaxFault.message : SyntaxFault → String
  | .expected what found => s!"expected {what.display}, found {found.display}"
  | .unexpected text => s!"unexpected '{text}'"
  | .notAssignable => "invalid assignment target"

/-- A syntax fault with the range it is reported at. -/
structure SyntaxError where
  fault : SyntaxFault
  range : Range
deriving DecidableEq

end BrighterCheck
