import BrighterCheck.Parser.Expression

/-!
# Conditionals

`if` statements in their three forms: with blocks, on one line, and for conditional compilation.
Each is a chain of arms that ends with an optional last branch; the chain becomes a nest of nodes
in which every arm is the other branch of the one before it.
-/

namespace BrighterCheck.Parser

/-- A condition and the branch taken if it holds. -/
structure Arm where
  keyword : Token
  condition : NumberedTree
  branch : NumberedTree

/-- How the arms of a conditional are read and turned into nodes. -/
structure ArmStyle where
  /-- The token between an arm and the next one or the last branch. -/
  otherwise : TokenKind
  /-- The condition of an arm. -/
  condition : Parser NumberedTree
  /-- The branch of an arm. -/
  branch : Parser NumberedTree
  /-- The branch behind all arms. -/
  last : Parser NumberedTree
  /-- An arm with its other branch as a node. -/
  build : Arm → Option NumberedTree → Parser NumberedTree

/-- The arms behind the first one, the last of them first, and the last branch. -/
def laterArms (style : ArmStyle) : Parser (List Arm × Option NumberedTree) :=
  iterate (fun (arms, last) => do
    if last.isSome then
      return none
    else
      match ← accept style.otherwise with
      | none => return none
      | some _ =>
        match ← accept (.keyword .ifKw) with
        | some keyword =>
          let condition ← style.condition
          let branch ← style.branch
          return some (⟨keyword, condition, branch⟩ :: arms, none)
        | none => return some (arms, some (← style.last))) ([], none)

/-- The arms of a conditional, the first keyword and condition of which are given, as a node. -/
def armChain (style : ArmStyle) (keyword : Token) (condition : NumberedTree) :
    Parser NumberedTree := do
  let branch ← style.branch
  let (arms, last) ← laterArms style
  let other ← arms.foldlM (fun other arm => some <$> style.build arm other) last
  style.build ⟨keyword, condition, branch⟩ other

/-- The condition of an `if`, and the word `then`, which may be left out. -/
def condition (nested : Nested) : Parser NumberedTree := do
  let condition ← nested.expression
  let _ ← accept (.keyword .thenKw)
  return condition

/-- A branch written on the line of its condition. -/
def inlineBody (nested : Nested) : Parser NumberedTree := do
  let first ← nested.statement
  let more ← many do
    match ← accept (.punctuator .colon) with
    | none => return none
    | some _ => if endsExpression (← kind) then return none else some <$> nested.statement
  body (first :: more)

/-- An `if` with blocks as a node, without the words that end it. -/
def blockIfNode (arm : Arm) (other : Option NumberedTree) : Parser NumberedTree :=
  node (.ifStatement arm.keyword arm.condition arm.branch other)
    (Range.bounding [some arm.keyword.range, arm.condition.range, arm.branch.range,
      other.bind Tree.range])

/-- An `if` on one line as a node. -/
def inlineIfNode (arm : Arm) (other : Option NumberedTree) : Parser NumberedTree :=
  node (.ifStatement arm.keyword arm.condition arm.branch other)
    (Range.bounding [some arm.keyword.range, arm.branch.range, other.bind Tree.range])

/-- Conditional compilation as a node, without the words that end it. -/
def conditionalNode (arm : Arm) (other : Option NumberedTree) : Parser NumberedTree :=
  node (.conditionalBlock arm.keyword arm.condition arm.branch other)
    (Range.bounding [some arm.keyword.range, arm.branch.range, other.bind Tree.range])

/-- Arms with blocks. -/
def blockStyle (nested : Nested) : ArmStyle where
  otherwise := .keyword .elseKw
  condition := condition nested
  branch := block nested (.orAt (.keyword .elseKw) (.block .ifKw))
  last := block nested (.block .ifKw)
  build := blockIfNode

/-- Arms on one line. -/
def inlineStyle (nested : Nested) : ArmStyle where
  otherwise := .keyword .elseKw
  condition := condition nested
  branch := inlineBody nested
  last := inlineBody nested
  build := inlineIfNode

/-- Arms of conditional compilation. -/
def conditionalStyle (nested : Nested) : ArmStyle where
  otherwise := .directive .elseDirective
  condition := nested.expression
  branch := block nested (.orAt (.directive .elseDirective) .conditional)
  last := block nested .conditional
  build := conditionalNode

/-- An `if` statement: with blocks if its line ends behind the condition, else on one line. -/
def ifStatement (nested : Nested) : Parser NumberedTree := do
  let keyword ← advance
  let condition ← condition nested
  if endsLine (← kind) then
    let node ← armChain (blockStyle nested) keyword condition
    extend node (← expectEnd .ifKw)
  else
    armChain (inlineStyle nested) keyword condition

/-- Takes the end of a conditional block. -/
def expectConditionalEnd : Parser Range := do
  match ← accept (.directive .endIf) with
  | some joined => return joined.range
  | none =>
    if ← isAtEnding .conditional then
      advanceTwo
    else
      refuseFor .conditionalEnd

/-- Statements that are compiled under a condition. -/
def conditionalBlock (nested : Nested) : Parser NumberedTree := do
  let keyword ← advance
  let condition ← nested.expression
  let node ← armChain (conditionalStyle nested) keyword condition
  extend node (← expectConditionalEnd)

end BrighterCheck.Parser
