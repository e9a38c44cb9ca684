import BrighterCheck.Token.Basic

/-!
# Node kinds

What a node of a syntax tree is, with the tokens that belong to it. Parts that are nodes themselves
are the children of the node; a kind says what they are and in which order.
-/

namespace BrighterCheck

/-- A parameter of a method that an interface announces. -/
structure InterfaceParameter where
  name : Token
  type : Option Token
deriving DecidableEq

/-- What a node is: statements first, then expressions. -/
inductive NodeKind where
  /-- A list of statements: a whole file, a block, or a branch written on one line. -/
  | body
  | comment (comment : Token)
  /-- `name = value`, with the value as child. -/
  | assignment (name operator : Token)
  /-- The assignment that starts the counter of a `for` loop, with the start value as child. -/
  | counter (name operator : Token)
  /-- `object.name = value`, with the object and the value as children. -/
  | dottedSet (dot name operator : Token)
  /-- `object[indexes] = value`, with the object, the indexes and the value as children. -/
  | indexedSet (questionDot : Option Token) (openSquare closeSquare operator : Token)
  /-- `target++` or `target--`. -/
  | increment (operator : Token)
  | expressionStatement
  | print (keyword : Token)
  /-- A condition, the branch taken if it holds, and the other branch if there is one. -/
  | ifStatement (keyword : Token)
  /-- A condition and a body. -/
  | whileLoop (keyword : Token)
  /-- A counter, the final value, the step if there is one, and a body. -/
  | forLoop (keyword : Token)
  /-- What is looped over, and a body. -/
  | forEachLoop (keyword item : Token)
  | exitLoop (keyword : Token) (loop : Option Token)
  | continueLoop (keyword : Token) (loop : Option Token)
  /-- The value returned, if there is one. -/
  | returnStatement (keyword : Token)
  /-- The dimensions of an array. -/
  | dim (keyword name : Token)
  /-- A body, and the clause that catches its exceptions if there is one. -/
  | tryStatement (keyword : Token)
  | catchClause (keyword : Token) (exception : Option Token)
  | throwStatement (keyword : Token)
  | stopStatement (keyword : Token)
  | endStatement (keyword : Token)
  /-- A named function, with its function expression as child. -/
  | function (name : Token)
  /-- A function of a class, with its function expression as child. -/
  | method (access overriding : Option Token) (name : Token)
  /-- The value a field starts with, if there is one. -/
  | field (access : Option Token) (name : Token) (type : Option Token)
  | classDeclaration (keyword name : Token) (parent : Option Token)
  /-- A name (an identifier or a chain of dotted accesses) and a body. -/
  | namespaceDeclaration (keyword : Token)
  | interfaceDeclaration (keyword name : Token) (parent : Option Token)
  | interfaceField (name : Token) (type : Option Token)
  | interfaceMethod (keyword name : Token) (parameters : List InterfaceParameter)
      (returns : Option Token)
  | enumDeclaration (keyword name : Token)
  | enumMember (name : Token)
  | constDeclaration (keyword name : Token)
  /-- A directive that names a library. -/
  | library (keyword : Token) (path : Option Token)
  /-- A directive that names a file. -/
  | importStatement (keyword : Token) (path : Option Token)
  | conditionalConst (keyword name : Token)
  | conditionalError (token : Token)
  /-- A condition, the branch kept if it holds, and the other branch if there is one. -/
  | conditionalBlock (keyword : Token)
  | typecast (keyword type : Token)
  | aliasDeclaration (keyword name : Token)
  | literal (token : Token)
  | name (name : Token)
  | unary (operator : Token)
  | binary (operator : Token)
  | grouping
  /-- `object.name`, with the object as child. -/
  | dottedGet (dot name : Token)
  /-- `object[indexes]`, with the object and the indexes as children. -/
  | indexedGet (questionDot : Option Token) (openSquare closeSquare : Token)
  /-- What is called, then the arguments. -/
  | call
  /-- The node that is called, then the arguments. -/
  | callfunc (operator method : Token)
  /-- The call of a constructor. -/
  | new (keyword : Token)
  | array
  /-- An associative array. -/
  | record
  /-- The value under a key. -/
  | recordMember (key : Token)
  /-- The parameters, then the body. -/
  | functionExpression (keyword : Token) (returns : Option Token)
  /-- The default value, if there is one. -/
  | parameter (name : Token) (type : Option Token)

namespace NodeKind

/-- The name of a kind in listings of a tree. -/
def display : NodeKind → String
  | .body => "Body"
  | .comment .. => "Comment"
  | .assignment .. => "Assignment"
  | .counter .. => "Assignment"
  | .dottedSet .. => "DottedSet"
  | .indexedSet .. => "IndexedSet"
  | .increment .. => "Increment"
  | .expressionStatement => "ExpressionStatement"
  | .print .. => "Print"
  | .ifStatement .. => "If"
  | .whileLoop .. => "While"
  | .forLoop .. => "For"
  | .forEachLoop .. => "ForEach"
  | .exitLoop .. => "ExitLoop"
  | .continueLoop .. => "Continue"
  | .returnStatement .. => "Return"
  | .dim .. => "Dim"
  | .tryStatement .. => "Try"
  | .catchClause .. => "Catch"
  | .throwStatement .. => "Throw"
  | .stopStatement .. => "Stop"
  | .endStatement .. => "End"
  | .function .. => "Function"
  | .method .. => "Method"
  | .field .. => "Field"
  | .classDeclaration .. => "Class"
  | .namespaceDeclaration .. => "Namespace"
  | .interfaceDeclaration .. => "Interface"
  | .interfaceField .. => "InterfaceField"
  | .interfaceMethod .. => "InterfaceMethod"
  | .enumDeclaration .. => "Enum"
  | .enumMember .. => "EnumMember"
  | .constDeclaration .. => "Const"
  | .library .. => "Library"
  | .importStatement .. => "Import"
  | .conditionalConst .. => "ConditionalCompileConst"
  | .conditionalError .. => "ConditionalCompileError"
  | .conditionalBlock .. => "ConditionalCompile"
  | .typecast .. => "Typecast"
  | .aliasDeclaration .. => "Alias"
  | .literal .. => "Literal"
  | .name .. => "Variable"
  | .unary .. => "Unary"
  | .binary .. => "Binary"
  | .grouping => "Grouping"
  | .dottedGet .. => "DottedGet"
  | .indexedGet .. => "IndexedGet"
  | .call => "Call"
  | .callfunc .. => "Callfunc"
  | .new .. => "New"
  | .array => "ArrayLiteral"
  | .record => "AALiteral"
  | .recordMember .. => "AAMember"
  | .functionExpression .. => "FunctionExpression"
  | .parameter .. => "FunctionParameter"

/-- The text shown beside the kind in listings of a tree. -/
def label? : NodeKind → Option String
  | .assignment t _ | .counter t _ | .dottedSet _ t _ | .function t | .method _ _ t | .field _ t _
  | .classDeclaration _ t _ | .interfaceDeclaration _ t _ | .interfaceField t _
  | .interfaceMethod _ t _ _ | .enumDeclaration _ t | .enumMember t | .constDeclaration _ t
  | .conditionalConst _ t | .aliasDeclaration _ t | .name t | .dottedGet _ t | .parameter t _
  | .forEachLoop _ t | .callfunc _ t | .literal t | .unary t | .binary t | .dim _ t => some t.text
  | .catchClause _ t | .library _ t | .importStatement _ t => t.map Token.text
  | _ => none

/-- Loops that `continue` and `exit` refer to. -/
def isLoop : NodeKind → Bool
  | .whileLoop .. | .forLoop .. | .forEachLoop .. => true
  | _ => false

/-- Declarations that stand only at the root of a file or in a namespace. -/
def isDeclaration : NodeKind → Bool
  | .function .. | .classDeclaration .. | .enumDeclaration .. | .interfaceDeclaration ..
  | .namespaceDeclaration .. | .constDeclaration .. => true
  | _ => false

/-- Statements that name another file or a library. -/
def isDirective : NodeKind → Bool
  | .library .. | .importStatement .. => true
  | _ => false

/-- Statement lists. -/
def isBody : NodeKind → Bool
  | .body => true
  | _ => false

/-- Declarations of a namespace. -/
def isNamespace : NodeKind → Bool
  | .namespaceDeclaration .. => true
  | _ => false

/-- Statements made from a target that was read as an expression. -/
def isTargeted : NodeKind → Bool
  | .assignment .. | .dottedSet .. | .indexedSet .. => true
  | _ => false

end NodeKind

end BrighterCheck
