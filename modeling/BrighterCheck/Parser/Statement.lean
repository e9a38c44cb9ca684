import BrighterCheck.Parser.Conditional
import BrighterCheck.Parser.Declaration

/-!
# Statements

Every statement is told by its first token, and by the second where that is not enough.
-/

namespace BrighterCheck.Parser

/-- A statement that is one token. -/
def single (make : Token → Form NumberedTree) : Parser NumberedTree := do
  let token ← advance
  leaf (make token) token

/-- A keyword with a token of one of the kinds wanted behind it, if there is one. -/
def withOptionalToken (wanted : TokenKind → Bool)
    (make : Token → Option Token → Form NumberedTree) : Parser NumberedTree := do
  let keyword ← advance
  let extra ← acceptIf wanted
  let range := Range.bounding [some keyword.range, extra.map Token.range]
  node (make keyword extra) range

/-- A directive that names a library. -/
def library : Parser NumberedTree := do
  let directive ← withOptionalToken (· = .literal .string) .library
  noteReference (·.addLibrary directive.id)
  return directive

/-- A directive that names a file. -/
def importStatement : Parser NumberedTree := do
  let directive ← withOptionalToken (· = .literal .string) .importStatement
  noteReference (·.addImport directive.id)
  return directive

/-- The words that name a kind of loop. -/
def isLoopWord : TokenKind → Bool
  | .keyword .whileKw | .keyword .forKw => true
  | _ => false

/-- An expression, unless it is left out. -/
def optionalExpression (nested : Nested) : Parser (Option NumberedTree) := do
  if endsExpression (← kind) then return none else some <$> nested.expression

/-- `return`, with a value unless the statement ends. -/
def returnStatement (nested : Nested) : Parser NumberedTree := do
  let keyword ← advance
  let value ← optionalExpression nested
  let range := Range.bounding [some keyword.range, value.bind Tree.range]
  node (.returnStatement keyword value) range

/-- `throw` with the exception. -/
def throwStatement (nested : Nested) : Parser NumberedTree := do
  let keyword ← advance
  let value ← nested.expression
  node (.throwStatement keyword value) (Range.bounding [some keyword.range, value.range])

/-- Whether a token only separates what is printed. -/
def isPrintSeparator : TokenKind → Bool
  | .punctuator .semicolon | .punctuator .comma => true
  | _ => false

/-- `print`, with any number of values; commas and semicolons may stand anywhere. -/
def printStatement (nested : Nested) : Parser NumberedTree := do
  let keyword ← advance
  let values ← many do
    skip isPrintSeparator
    optionalExpression nested
  let range := Range.bounding (some keyword.range :: values.map Tree.range)
  node (.print keyword values) range

/-- `dim` with the name and the dimensions of an array. -/
def dimStatement (nested : Nested) : Parser NumberedTree := do
  let keyword ← advance
  let name ← expectIdentifier .array
  let _ ← expect (.punctuator .openSquare)
  let dimensions ← commaList (fun _ => false) (pure ()) nested.expression
  let close ← expect (.punctuator .closeSquare)
  node (.dim keyword name dimensions) (some (keyword.range.merge close.range))

/-- A `while` loop. -/
def whileLoop (nested : Nested) : Parser NumberedTree := do
  let keyword ← advance
  let condition ← nested.expression
  let body ← block nested (.block .whileKw)
  let finish ← expectEnd .whileKw
  node (.whileLoop keyword condition body) (some (keyword.range.merge finish))

/-- Takes the end of a `for` block: `next`, with the counter if it is named, or `end for`. -/
def expectForEnd : Parser Range := do
  match ← accept (.keyword .nextKw) with
  | some next =>
    let counter ← accept .identifier
    return next.range.merge ((counter.map Token.range).getD next.range)
  | none => expectEnd .forKw

/-- A `for each` loop, whose two keywords are given as one token. -/
def forEachRest (nested : Nested) (keyword : Token) : Parser NumberedTree := do
  let item ← expectIdentifier .loopVariable
  let _ ← expect (.keyword .inKw)
  let target ← nested.expression
  let body ← block nested .forBlock
  let finish ← expectForEnd
  node (.forEachLoop keyword item target body) (some (keyword.range.merge finish))

/-- A counting loop, whose keyword is given. -/
def forRest (nested : Nested) (keyword : Token) : Parser NumberedTree := do
  let name ← expectIdentifier .loopCounter
  let operator ← expect (.punctuator .equal)
  let start ← nested.expression
  let counter ← node (.counter name operator start) (Range.bounding [some name.range, start.range])
  let _ ← expect (.keyword .toKw)
  let final ← nested.expression
  let step ← after (.keyword .stepKw) nested.expression
  let body ← block nested .forBlock
  let finish ← expectForEnd
  node (.forLoop keyword counter final step body) (some (keyword.range.merge finish))

/-- A `for` loop of either kind. -/
def forLoop (nested : Nested) : Parser NumberedTree := do
  let keyword ← advance
  match ← accept (.keyword .eachKw) with
  | some each => forEachRest nested (.join .forEach " " keyword each)
  | none => forRest nested keyword

/-- The clause that catches exceptions, whose keyword is given. -/
def catchRest (nested : Nested) (keyword : Token) : Parser NumberedTree := do
  let exception ← accept .identifier
  let body ← block nested (.block .tryKw)
  let range := Range.bounding [some keyword.range, exception.map Token.range, body.range]
  node (.catchClause keyword exception body) range

/-- The clause that catches exceptions, if there is one. -/
def optionalCatch (nested : Nested) : Parser (Option NumberedTree) := do
  match ← accept (.keyword .catchKw) with
  | some keyword => some <$> catchRest nested keyword
  | none => return none

/-- A `try` statement. -/
def tryStatement (nested : Nested) : Parser NumberedTree := do
  let keyword ← advance
  let body ← block nested (.orAt (.keyword .catchKw) (.block .tryKw))
  let clause ← optionalCatch nested
  let finish ← expectEnd .tryKw
  node (.tryStatement keyword body clause) (some (keyword.range.merge finish))

/-- A statement that gives an expression another type. -/
def typecast (nested : Nested) : Parser NumberedTree := do
  let keyword ← advance
  let value ← nested.expression
  let _ ← expect (.keyword .asKw)
  let type ← typeName
  node (.typecast keyword value type) (some (keyword.range.merge type.range))

/--
The statement that assigns `value` to a target which was read as an expression: it takes the place
of the target and keeps its number.
-/
def assignment? (target : NumberedTree) (operator : Token) (value : NumberedTree) :
    Option NumberedTree :=
  let range := Range.bounding [target.range, value.range]
  match target.kind with
  | .name name => some ⟨target.id, .assignment name operator, range, [value]⟩
  | .dottedGet dot name =>
    some ⟨target.id, .dottedSet dot name operator, range, target.children ++ [value]⟩
  | .indexedGet questionDot openSquare closeSquare =>
    some ⟨target.id, .indexedSet questionDot openSquare closeSquare operator, range,
      target.children ++ [value]⟩
  | _ => none

/-- Whether an operator assigns to the expression before it. -/
def isAssignment : TokenKind → Bool
  | .punctuator .equal => true
  | k => k.isCompoundAssignment

/-- Whether an operator counts the expression before it up or down. -/
def isCount : TokenKind → Bool
  | .punctuator .increment | .punctuator .decrement => true
  | _ => false

/-- A statement that starts with an expression: an assignment, a count, or the expression alone. -/
def expressionStatement (nested : Nested) : Parser NumberedTree := do
  let target ← accessed nested
  match ← acceptIf isAssignment with
  | some operator =>
    let value ← nested.expression
    match assignment? target operator value with
    | some statement =>
      changeStore (·.assign target.id operator value.id statement.range)
      return statement
    | none => refuseAt .notAssignable (target.range.getD operator.range)
  | none =>
    match ← acceptIf isCount with
    | some operator =>
      let range := Range.bounding [target.range, some operator.range]
      node (.increment target operator) range
    | none => node (.expressionStatement target) target.range

/-- Refuses a word that ends a block which was not started. -/
def strayEnd : Parser NumberedTree :=
  refuse fun t => .unexpected t.text

/-- A statement that starts with the keyword `word`. -/
def keywordStatement (nested : Nested) (word : Keyword) : Parser NumberedTree := do
  match word with
  | .subKw | .functionKw =>
    if (← followingKind) = .identifier then functionDeclaration nested
    else expressionStatement nested
  | .namespaceKw => namespaceDeclaration nested
  | .classKw => classDeclaration nested
  | .interfaceKw => interfaceDeclaration
  | .enumKw => enumDeclaration nested
  | .constKw => namedValue nested .constant .constDeclaration
  | .importKw => importStatement
  | .libraryKw => library
  | .ifKw => ifStatement nested
  | .whileKw => whileLoop nested
  | .forKw => forLoop nested
  | .exitKw => withOptionalToken isLoopWord .exitLoop
  | .continueKw => withOptionalToken isLoopWord .continueLoop
  | .returnKw => returnStatement nested
  | .dimKw => dimStatement nested
  | .tryKw => tryStatement nested
  | .throwKw => throwStatement nested
  | .printKw => printStatement nested
  | .stopKw => single .stopStatement
  | .typecastKw => typecast nested
  | .aliasKw => namedValue nested .aliasName .aliasDeclaration
  | .endKw =>
    if endsStatement (← followingKind) then single .endStatement else strayEnd
  | .endSubKw | .endFunctionKw | .endIfKw | .endWhileKw | .endForKw
  | .nextKw | .elseKw | .catchKw => strayEnd
  | _ => expressionStatement nested

/-- A statement. -/
def statement (nested : Nested) : Parser NumberedTree := do
  match ← kind with
  | .comment => comment
  | .keyword word => keywordStatement nested word
  | .punctuator .question => printStatement nested
  | .directive .const => namedValue nested .constant .conditionalConst
  | .directive .ifDirective => conditionalBlock nested
  | .directive .error => single .conditionalError
  | _ => expressionStatement nested

end BrighterCheck.Parser
