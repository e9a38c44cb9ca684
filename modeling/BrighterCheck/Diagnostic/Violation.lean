/-!
# Violations

The catalogue of what the rules report: every violation has a stable code and a wording.
-/

namespace BrighterCheck

/-- What is wrong at some place of a file. -/
inductive Violation where
  | callfuncArguments (count : Nat)
  | misplacedDeclaration (keyword : String)
  | duplicateIdentifier (name : String)
  | enumValueType (type : String)
  | enumValueRequired (type : String)
  | expectedToken (token : String)
  | illegalContinue
  | voidReturnsValue (function : String)
  | missingReturnValue (function : String)
  | optionalChainingTarget
  | outsideFunction
  | misplacedLibrary
  | misplacedImport
  | tooManyParameters (actual max : Nat)
deriving DecidableEq

namespace Violation

/-- The code of a violation, by which it can be suppressed. -/
def code : Violation → Nat
  | .callfuncArguments _ => 1100
  | .misplacedDeclaration _ => 1101
  | .duplicateIdentifier _ => 1102
  | .enumValueType _ => 1103
  | .enumValueRequired _ => 1104
  | .expectedToken _ => 1105
  | .illegalContinue => 1106
  | .voidReturnsValue _ => 1107
  | .missingReturnValue _ => 1108
  | .optionalChainingTarget => 1109
  | .outsideFunction => 1110
  | .misplacedLibrary => 1111
  | .misplacedImport => 1112
  | .tooManyParameters .. => 1113

/-- The wording of a violation. -/
def message : Violation → String
  | .callfuncArguments count =>
    "too many callfunc arguments: all callfunc expressions must have 5 or fewer arguments, " ++
      s!"found {count}"
  | .misplacedDeclaration keyword =>
    s!"'{keyword}' must be declared at namespace level or at the root of the file"
  | .duplicateIdentifier name => s!"duplicate identifier '{name}'"
  | .enumValueType type => s!"enum value must be type '{type}'"
  | .enumValueRequired type => s!"enum value is required for '{type}' enums"
  | .expectedToken token => s!"expected token '{token}'"
  | .illegalContinue => "illegal continue statement: continue must be inside a loop"
  | .voidReturnsValue function => s!"void {function} may not return a value"
  | .missingReturnValue function => s!"non-void {function} must return a value"
  | .optionalChainingTarget => "no optional chaining in left-hand side of assignment"
  | .outsideFunction => "unexpected statement outside function"
  | .misplacedLibrary => "library statement must be declared at top of file"
  | .misplacedImport => "import statement must be declared at top of file"
  | .tooManyParameters actual max =>
    s!"too many callable parameters: found {actual}, maximum is {max}"

end Violation

end BrighterCheck
