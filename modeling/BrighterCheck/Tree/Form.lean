import BrighterCheck.Tree.Kind

/-!
# Node forms

A node with its parts by name: the tokens that its kind holds, and in their places the nodes below
it. The parts can be whole trees or the numbers of nodes.
-/

namespace BrighterCheck

/-- A node as it is made, with parts of the type `α`: statements first, then expressions. -/
inductive Form (α : Type) where
  | body (statements : List α)
  | comment (comment : Token)
  | assignment (name operator : Token) (value : α)
  | counter (name operator : Token) (value : α)
  | dottedSet (object : α) (dot name operator : Token) (value : α)
  | indexedSet (object : α) (questionDot : Option Token) (openSquare : Token) (indexes : List α)
      (closeSquare operator : Token) (value : α)
  | increment (value : α) (operator : Token)
  | expressionStatement (expression : α)
  | print (keyword : Token) (expressions : List α)
  | ifStatement (keyword : Token) (condition thenBranch : α) (elseBranch : Option α)
  | whileLoop (keyword : Token) (condition body : α)
  | forLoop (keyword : Token) (counter final : α) (step : Option α) (body : α)
  | forEachLoop (keyword item : Token) (target body : α)
  | exitLoop (keyword : Token) (loop : Option Token)
  | continueLoop (keyword : Token) (loop : Option Token)
  | returnStatement (keyword : Token) (value : Option α)
  | dim (keyword name : Token) (dimensions : List α)
  | tryStatement (keyword : Token) (body : α) (clause : Option α)
  | catchClause (keyword : Token) (exception : Option Token) (body : α)
  | throwStatement (keyword : Token) (value : α)
  | stopStatement (keyword : Token)
  | endStatement (keyword : Token)
  | function (name : Token) (function : α)
  | method (access overriding : Option Token) (name : Token) (function : α)
  | field (access : Option Token) (name : Token) (type : Option Token) (value : Option α)
  | classDeclaration (keyword name : Token) (parent : Option Token) (members : List α)
  | namespaceDeclaration (keyword : Token) (name body : α)
  | interfaceDeclaration (keyword name : Token) (parent : Option Token) (members : List α)
  | interfaceField (name : Token) (type : Option Token)
  | interfaceMethod (keyword name : Token) (parameters : List InterfaceParameter)
      (returns : Option Token)
  | enumDeclaration (keyword name : Token) (members : List α)
  | enumMember (name : Token) (value : Option α)
  | constDeclaration (keyword name : Token) (value : α)
  | library (keyword : Token) (path : Option Token)
  | importStatement (keyword : Token) (path : Option Token)
  | conditionalConst (keyword name : Token) (value : α)
  | conditionalError (token : Token)
  | conditionalBlock (keyword : Token) (condition thenBranch : α) (elseBranch : Option α)
  | typecast (keyword : Token) (value : α) (type : Token)
  | aliasDeclaration (keyword name : Token) (value : α)
  | literal (token : Token)
  | name (name : Token)
  | unary (operator : Token) (right : α)
  | binary (left : α) (operator : Token) (right : α)
  | grouping (inner : α)
  | dottedGet (object : α) (dot name : Token)
  | indexedGet (object : α) (questionDot : Option Token) (openSquare : Token) (indexes : List α)
      (closeSquare : Token)
  | call (callee : α) (arguments : List α)
  | callfunc (callee : α) (operator method : Token) (arguments : List α)
  | new (keyword : Token) (call : α)
  | array (elements : List α)
  | record (members : List α)
  | recordMember (key : Token) (value : α)
  | functionExpression (keyword : Token) (parameters : List α) (returns : Option Token) (body : α)
  | parameter (name : Token) (value : Option α) (type : Option Token)

namespace Form

variable {α β : Type}

/-- What the node is, with the tokens that belong to it. -/
def kind : Form α → NodeKind
  | .body _ => .body
  | .comment c => .comment c
  | .assignment n op _ => .assignment n op
  | .counter n op _ => .counter n op
  | .dottedSet _ dot n op _ => .dottedSet dot n op
  | .indexedSet _ q opening _ close op _ => .indexedSet q opening close op
  | .increment _ op => .increment op
  | .expressionStatement _ => .expressionStatement
  | .print k _ => .print k
  | .ifStatement k _ _ _ => .ifStatement k
  | .whileLoop k _ _ => .whileLoop k
  | .forLoop k _ _ _ _ => .forLoop k
  | .forEachLoop k item _ _ => .forEachLoop k item
  | .exitLoop k loop => .exitLoop k loop
  | .continueLoop k loop => .continueLoop k loop
  | .returnStatement k _ => .returnStatement k
  | .dim k n _ => .dim k n
  | .tryStatement k _ _ => .tryStatement k
  | .catchClause k exception _ => .catchClause k exception
  | .throwStatement k _ => .throwStatement k
  | .stopStatement k => .stopStatement k
  | .endStatement k => .endStatement k
  | .function n _ => .function n
  | .method access overriding n _ => .method access overriding n
  | .field access n type _ => .field access n type
  | .classDeclaration k n parent _ => .classDeclaration k n parent
  | .namespaceDeclaration k _ _ => .namespaceDeclaration k
  | .interfaceDeclaration k n parent _ => .interfaceDeclaration k n parent
  | .interfaceField n type => .interfaceField n type
  | .interfaceMethod k n parameters returns => .interfaceMethod k n parameters returns
  | .enumDeclaration k n _ => .enumDeclaration k n
  | .enumMember n _ => .enumMember n
  | .constDeclaration k n _ => .constDeclaration k n
  | .library k path => .library k path
  | .importStatement k path => .importStatement k path
  | .conditionalConst k n _ => .conditionalConst k n
  | .conditionalError t => .conditionalError t
  | .conditionalBlock k _ _ _ => .conditionalBlock k
  | .typecast k _ type => .typecast k type
  | .aliasDeclaration k n _ => .aliasDeclaration k n
  | .literal t => .literal t
  | .name n => .name n
  | .unary op _ => .unary op
  | .binary _ op _ => .binary op
  | .grouping _ => .grouping
  | .dottedGet _ dot n => .dottedGet dot n
  | .indexedGet _ q opening _ close => .indexedGet q opening close
  | .call _ _ => .call
  | .callfunc _ op m _ => .callfunc op m
  | .new k _ => .new k
  | .array _ => .array
  | .record _ => .record
  | .recordMember key _ => .recordMember key
  | .functionExpression k _ returns _ => .functionExpression k returns
  | .parameter n _ type => .parameter n type

/-- The nodes directly below the node, in source order. -/
def children : Form α → List α
  | .body statements => statements
  | .assignment _ _ value | .counter _ _ value => [value]
  | .dottedSet object _ _ _ value => [object, value]
  | .indexedSet object _ _ indexes _ _ value => object :: (indexes ++ [value])
  | .increment value _ => [value]
  | .expressionStatement expression => [expression]
  | .print _ expressions => expressions
  | .ifStatement _ condition thenBranch elseBranch
  | .conditionalBlock _ condition thenBranch elseBranch =>
    condition :: thenBranch :: elseBranch.toList
  | .whileLoop _ condition b => [condition, b]
  | .forLoop _ start final step b => start :: final :: step.toList ++ [b]
  | .forEachLoop _ _ target b => [target, b]
  | .returnStatement _ value => value.toList
  | .dim _ _ dimensions => dimensions
  | .tryStatement _ b clause => b :: clause.toList
  | .catchClause _ _ b => [b]
  | .throwStatement _ value => [value]
  | .function _ f | .method _ _ _ f => [f]
  | .field _ _ _ value => value.toList
  | .classDeclaration _ _ _ members | .interfaceDeclaration _ _ _ members
  | .enumDeclaration _ _ members => members
  | .namespaceDeclaration _ n b => [n, b]
  | .enumMember _ value => value.toList
  | .constDeclaration _ _ value | .conditionalConst _ _ value
  | .aliasDeclaration _ _ value => [value]
  | .typecast _ value _ => [value]
  | .unary _ right => [right]
  | .binary left _ right => [left, right]
  | .grouping inner => [inner]
  | .dottedGet object _ _ => [object]
  | .indexedGet object _ _ indexes _ => object :: indexes
  | .call callee arguments | .callfunc callee _ _ arguments => callee :: arguments
  | .new _ c => [c]
  | .array elements => elements
  | .record members => members
  | .recordMember _ value => [value]
  | .functionExpression _ parameters _ b => parameters ++ [b]
  | .parameter _ value _ => value.toList
  | .comment _ | .exitLoop .. | .continueLoop .. | .stopStatement _ | .endStatement _
  | .interfaceField .. | .interfaceMethod .. | .library .. | .importStatement ..
  | .conditionalError _ | .literal _ | .name _ => []

/-- The same form with other parts in their places. -/
def map (f : α → β) : Form α → Form β
  | .body statements => .body (statements.map f)
  | .comment c => .comment c
  | .assignment n op value => .assignment n op (f value)
  | .counter n op value => .counter n op (f value)
  | .dottedSet object dot n op value => .dottedSet (f object) dot n op (f value)
  | .indexedSet object q opening indexes close op value =>
    .indexedSet (f object) q opening (indexes.map f) close op (f value)
  | .increment value op => .increment (f value) op
  | .expressionStatement expression => .expressionStatement (f expression)
  | .print k expressions => .print k (expressions.map f)
  | .ifStatement k condition thenBranch elseBranch =>
    .ifStatement k (f condition) (f thenBranch) (elseBranch.map f)
  | .whileLoop k condition b => .whileLoop k (f condition) (f b)
  | .forLoop k start final step b => .forLoop k (f start) (f final) (step.map f) (f b)
  | .forEachLoop k item target b => .forEachLoop k item (f target) (f b)
  | .exitLoop k loop => .exitLoop k loop
  | .continueLoop k loop => .continueLoop k loop
  | .returnStatement k value => .returnStatement k (value.map f)
  | .dim k n dimensions => .dim k n (dimensions.map f)
  | .tryStatement k b clause => .tryStatement k (f b) (clause.map f)
  | .catchClause k exception b => .catchClause k exception (f b)
  | .throwStatement k value => .throwStatement k (f value)
  | .stopStatement k => .stopStatement k
  | .endStatement k => .endStatement k
  | .function n g => .function n (f g)
  | .method access overriding n g => .method access overriding n (f g)
  | .field access n type value => .field access n type (value.map f)
  | .classDeclaration k n parent members => .classDeclaration k n parent (members.map f)
  | .namespaceDeclaration k n b => .namespaceDeclaration k (f n) (f b)
  | .interfaceDeclaration k n parent members => .interfaceDeclaration k n parent (members.map f)
  | .interfaceField n type => .interfaceField n type
  | .interfaceMethod k n parameters returns => .interfaceMethod k n parameters returns
  | .enumDeclaration k n members => .enumDeclaration k n (members.map f)
  | .enumMember n value => .enumMember n (value.map f)
  | .constDeclaration k n value => .constDeclaration k n (f value)
  | .library k path => .library k path
  | .importStatement k path => .importStatement k path
  | .conditionalConst k n value => .conditionalConst k n (f value)
  | .conditionalError t => .conditionalError t
  | .conditionalBlock k condition thenBranch elseBranch =>
    .conditionalBlock k (f condition) (f thenBranch) (elseBranch.map f)
  | .typecast k value type => .typecast k (f value) type
  | .aliasDeclaration k n value => .aliasDeclaration k n (f value)
  | .literal t => .literal t
  | .name n => .name n
  | .unary op right => .unary op (f right)
  | .binary left op right => .binary (f left) op (f right)
  | .grouping inner => .grouping (f inner)
  | .dottedGet object dot n => .dottedGet (f object) dot n
  | .indexedGet object q opening indexes close =>
    .indexedGet (f object) q opening (indexes.map f) close
  | .call callee arguments => .call (f callee) (arguments.map f)
  | .callfunc callee op m arguments => .callfunc (f callee) op m (arguments.map f)
  | .new k c => .new k (f c)
  | .array elements => .array (elements.map f)
  | .record members => .record (members.map f)
  | .recordMember key value => .recordMember key (f value)
  | .functionExpression k parameters returns b =>
    .functionExpression k (parameters.map f) returns (f b)
  | .parameter n value type => .parameter n (value.map f) type

/-- What a node is does not depend on its parts. -/
@[simp]
theorem kind_map (f : α → β) (form : Form α) : (form.map f).kind = form.kind := by
  cases form <;> rfl

/-- The parts in their places are those below the node. -/
@[simp]
theorem children_map (f : α → β) (form : Form α) :
    (form.map f).children = form.children.map f := by
  cases form <;> simp [map, children, Option.toList_map]

/-- The statement that assigns `value` to a target of the given form, if it can be assigned to. -/
def assign? (target : Form α) (operator : Token) (value : α) : Option (Form α) :=
  match target with
  | .name n => some (.assignment n operator value)
  | .dottedGet object dot n => some (.dottedSet object dot n operator value)
  | .indexedGet object q opening indexes close =>
    some (.indexedSet object q opening indexes close operator value)
  | _ => none

end Form

end BrighterCheck
