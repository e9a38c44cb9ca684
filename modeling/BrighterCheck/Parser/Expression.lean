import BrighterCheck.Parser.Function

/-!
# Expressions

Expressions in layers, from `or`, which binds loosest, to accessors, which bind tightest. All binary
operators associate to the left.
-/

namespace BrighterCheck.Parser

/-- An operator between two operands. -/
def binaryNode (left : NumberedTree) (operator : Token) (right : NumberedTree) :
    Parser NumberedTree :=
  node (.binary left operator right) (Range.bounding [left.range, right.range])

/-- An operator in front of its operand. -/
def unaryNode (operator : Token) (operand : NumberedTree) : Parser NumberedTree :=
  node (.unary operator operand) (Range.bounding [some operator.range, operand.range])

/-- Operands with operators of one layer between them. -/
def binaryLayer (isOperator : TokenKind → Bool) (operand : Parser NumberedTree) :
    Parser NumberedTree := do
  let first ← operand
  iterate (fun left => do
    match ← acceptIf isOperator with
    | none => return none
    | some operator => some <$> binaryNode left operator (← operand)) first

/-- An operand behind any number of operators of one layer. -/
def unaryLayer (isOperator : TokenKind → Bool) (operand : Parser NumberedTree) :
    Parser NumberedTree := do
  let operators ← many (acceptIf isOperator)
  let innermost ← operand
  operators.foldrM unaryNode innermost

/-- The arguments of a call behind its opening parenthesis, and the closing one. -/
def arguments (nested : Nested) : Parser (List NumberedTree × Token) := do
  skipNewlines
  let values ← commaList closesParen skipNewlines nested.expression
  let close ← expect (.punctuator .closeParen)
  return (values, close)

/-- The elements of a literal up to the kind `close`; commas between them may be left out. -/
def elements (close : TokenKind) (element : Parser NumberedTree) : Parser (List NumberedTree) :=
  many do
    if ← isAt close then
      return none
    else
      let read ← element
      skipNewlines
      let _ ← accept (.punctuator .comma)
      skipNewlines
      return some read

/-- An array literal behind its opening bracket, which is given. -/
def arrayRest (nested : Nested) (openSquare : Token) : Parser NumberedTree := do
  skipNewlines
  let values ← elements (.punctuator .closeSquare) nested.expression
  let close ← expect (.punctuator .closeSquare)
  node (.array values) (some (openSquare.range.merge close.range))

/-- A key of an associative array: a string or a name. -/
def recordKey : Parser Token := do
  if ← isAt (.literal .string) then advance else expectName .key

/-- A key of an associative array with its value. -/
def recordMember (nested : Nested) : Parser NumberedTree := do
  let key ← recordKey
  let _ ← expect (.punctuator .colon)
  skipNewlines
  let value ← nested.expression
  node (.recordMember key value) (Range.bounding [some key.range, value.range])

/-- An associative array behind its opening brace, which is given. -/
def recordRest (nested : Nested) (openCurly : Token) : Parser NumberedTree := do
  skipNewlines
  let values ← elements (.punctuator .closeCurly) (recordMember nested)
  let close ← expect (.punctuator .closeCurly)
  node (.record values) (some (openCurly.range.merge close.range))

/-- The call of a constructor behind `new`, which is given. -/
def newRest (nested : Nested) (keyword : Token) : Parser NumberedTree := do
  let callee ← qualifiedName .className
  let _ ← expect (.punctuator .openParen)
  let (values, close) ← arguments nested
  let call ← node (.call callee values) (Range.bounding [callee.range, some close.range])
  node (.new keyword call) (some (keyword.range.merge close.range))

/-- An expression in parentheses behind the opening one, which is given. -/
def groupingRest (nested : Nested) (openParen : Token) : Parser NumberedTree := do
  skipNewlines
  let inner ← nested.expression
  skipNewlines
  let close ← expect (.punctuator .closeParen)
  node (.grouping inner) (some (openParen.range.merge close.range))

/-- An expression without operators and accessors. -/
def primary (nested : Nested) : Parser NumberedTree := do
  match ← kind with
  | .identifier =>
    let token ← advance
    leaf (.name token) token
  | .literal _ | .keyword .trueKw | .keyword .falseKw | .keyword .invalidKw =>
    let token ← advance
    leaf (.literal token) token
  | .punctuator .openParen => groupingRest nested (← advance)
  | .punctuator .openSquare => arrayRest nested (← advance)
  | .punctuator .openCurly => recordRest nested (← advance)
  | .keyword .subKw | .keyword .functionKw => functionRest nested (← advance)
  | .keyword .newKw => newRest nested (← advance)
  | _ => refuseFor .expression

/-- An indexed access to `object` behind its opening bracket, which is given. -/
def indexRest (nested : Nested) (object : NumberedTree) (questionDot : Option Token)
    (openSquare : Token) : Parser NumberedTree := do
  skipNewlines
  let indexes ← commaList (fun _ => false) skipNewlines nested.expression
  let close ← expect (.punctuator .closeSquare)
  node (.indexedGet object questionDot openSquare indexes close)
    (Range.bounding [object.range, some close.range])

/-- An accessor behind `object`, if there is one. -/
def accessor (nested : Nested) (object : NumberedTree) : Parser (Option NumberedTree) := do
  match ← kind with
  | .punctuator .dot =>
    let dot ← advance
    some <$> dottedAccess object dot (← expectName .property)
  | .punctuator .questionDot =>
    let dot ← advance
    match ← accept (.punctuator .openSquare) with
    | some openSquare => some <$> indexRest nested object (some dot) openSquare
    | none => some <$> dottedAccess object dot (← expectName .property)
  | .punctuator .openSquare | .punctuator .questionSquare =>
    some <$> indexRest nested object none (← advance)
  | .punctuator .openParen =>
    let _ ← advance
    let (values, close) ← arguments nested
    let range := Range.bounding [object.range, some close.range]
    some <$> node (.call object values) range
  | .punctuator .atDot =>
    let operator ← advance
    let method ← expectName .method
    let _ ← expect (.punctuator .openParen)
    let (values, close) ← arguments nested
    let range := Range.bounding [object.range, some close.range]
    some <$> node (.callfunc object operator method values) range
  | _ => return none

/-- A primary expression and the accessors behind it. -/
def accessed (nested : Nested) : Parser NumberedTree := do
  let first ← primary nested
  iterate (accessor nested) first

/-- The sign of a number. -/
def isSign : TokenKind → Bool
  | .punctuator .plus | .punctuator .minus => true
  | _ => false

/-- The operator of powers. -/
def isPower : TokenKind → Bool
  | .punctuator .caret => true
  | _ => false

/-- The operators of products. -/
def isFactor : TokenKind → Bool
  | .punctuator .star | .punctuator .slash | .punctuator .backslash | .keyword .modKw => true
  | _ => false

/-- The operators of sums. -/
def isTerm : TokenKind → Bool
  | .punctuator .plus | .punctuator .minus => true
  | _ => false

/-- The operators that shift bits. -/
def isShift : TokenKind → Bool
  | .punctuator .shiftLeft | .punctuator .shiftRight => true
  | _ => false

/-- The operators that compare. -/
def isComparison : TokenKind → Bool
  | .punctuator .equal | .punctuator .notEqual | .punctuator .less | .punctuator .greater
  | .punctuator .lessEqual | .punctuator .greaterEqual => true
  | _ => false

/-- An expression without binary operators. -/
def signed (nested : Nested) : Parser NumberedTree :=
  unaryLayer isSign (accessed nested)

/-- Sums, and everything that binds more tightly. -/
def sum (nested : Nested) : Parser NumberedTree :=
  binaryLayer isTerm (binaryLayer isFactor (binaryLayer isPower (signed nested)))

/-- Comparisons, and everything that binds more tightly. -/
def comparison (nested : Nested) : Parser NumberedTree :=
  binaryLayer isComparison (binaryLayer isShift (sum nested))

/-- An expression. -/
def expression (nested : Nested) : Parser NumberedTree :=
  binaryLayer (· = .keyword .orKw) <| binaryLayer (· = .keyword .andKw) <|
    unaryLayer (· = .keyword .notKw) (comparison nested)

end BrighterCheck.Parser
