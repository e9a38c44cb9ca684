import BrighterCheck.Parser.Statement

/-!
# The grammar of files

A declarative account of what parsers read. `Production` lists, for every kind of node, the tokens
and nodes that it is made of in the order of the source, and the range it gets. `Reads s items s'`
says that the items stand between `s` and `s'`: every token that was taken is among them, and the
nodes among them were made from productions, each under the number that was next when its last item
had been read. Parsers are sound for this account, so that a property of all trees needs one
induction over `Reads`. Where a node has the property if its parts have it, `Reads.forall_node` is
this induction.
-/

namespace BrighterCheck

open BrighterCheck.Parser

/-- The three forms of a conditional: with blocks, on one line, and for conditional compilation. -/
inductive ArmForm where
  | block
  | inline
  | compile
deriving DecidableEq

namespace ArmForm

/-- The node that an arm becomes. -/
def kind : ArmForm → Token → NodeKind
  | .block, keyword | .inline, keyword => .ifStatement keyword
  | .compile, keyword => .conditionalBlock keyword

/-- The word that the first arm starts with; later arms all start with `if`. -/
def first : ArmForm → TokenKind
  | .block | .inline => .keyword .ifKw
  | .compile => .directive .ifDirective

/-- The token between an arm and what follows it. -/
def otherwise : ArmForm → TokenKind
  | .block | .inline => .keyword .elseKw
  | .compile => .directive .elseDirective

/-- The range of an arm; only arms with blocks count their condition. -/
def range (form : ArmForm) (keyword : Token) (condition branch : NumberedTree)
    (other : Option NumberedTree) : Option Range :=
  match form with
  | .block =>
    Range.bounding [some keyword.range, condition.range, branch.range, other.bind Tree.range]
  | .inline | .compile =>
    Range.bounding [some keyword.range, branch.range, other.bind Tree.range]

end ArmForm

/-- What a node stands for in the node around it. -/
inductive Category where
  | expression
  | statement
  | body
  /-- A conditional that starts with `word`, without the words that end it. -/
  | arm (form : ArmForm) (word : TokenKind)
  /-- A clause that catches exceptions. -/
  | clause
  | counter
  | parameter
  | recordMember
  | member
  /-- The function expression of a function called `name`. -/
  | definition (name : Token)
  /-- The call behind `new`, which ends with the token `close`. -/
  | construction (close : Token)
deriving DecidableEq

/-- A function expression is the definition of the name that it has, or else an expression. -/
def Category.ofFunction : Option Token → Category
  | some name => .definition name
  | none => .expression

@[simp] theorem Category.ofFunction_some (name : Token) :
    ofFunction (some name) = .definition name :=
  rfl

theorem Category.eq_of_ofFunction {c : Category} {name : Option Token} (h : c = .ofFunction name) :
    c = .expression ∨ ∃ t, c = .definition t := by
  cases name with
  | none => exact .inl h
  | some t => exact .inr ⟨t, h⟩

/-- A part of a node: a token, which may be folded from several, or a node. -/
inductive Item where
  | token (t : Token)
  | node (c : Category) (t : NumberedTree)

namespace Item

/-- The range of an item. -/
def range : Item → Option Range
  | .token t => some t.range
  | .node _ t => t.range

/-- The node that an item is, if it is one. -/
def node? : Item → Option NumberedTree
  | .token _ => none
  | .node _ t => some t

/-- The nodes among some items. -/
def nodes (items : List Item) : List NumberedTree :=
  items.filterMap node?

/-- Tokens as items. -/
def tokens (ts : List Token) : List Item :=
  ts.map .token

@[simp] theorem nodes_nil : nodes [] = [] := rfl

@[simp] theorem nodes_token (t : Token) (items : List Item) :
    nodes (.token t :: items) = nodes items := rfl

@[simp] theorem nodes_node (c : Category) (t : NumberedTree) (items : List Item) :
    nodes (.node c t :: items) = t :: nodes items := rfl

@[simp] theorem nodes_append (xs ys : List Item) : nodes (xs ++ ys) = nodes xs ++ nodes ys :=
  List.filterMap_append

@[simp] theorem nodes_tokens (ts : List Token) : nodes (tokens ts) = [] := by
  induction ts with
  | nil => rfl
  | cons t ts ih => exact ih

@[simp] theorem nodes_map_node (c : Category) (ts : List NumberedTree) :
    nodes (ts.map (.node c)) = ts := by
  induction ts with
  | nil => rfl
  | cons t ts ih => simp [ih]

theorem mem_nodes {t : NumberedTree} {items : List Item} :
    t ∈ nodes items ↔ ∃ c, .node c t ∈ items := by
  constructor
  · intro ht
    obtain ⟨i, hi, he⟩ := List.mem_filterMap.1 ht
    cases i with
    | token => cases he
    | node c u =>
      cases he
      exact ⟨c, hi⟩
  · rintro ⟨c, hi⟩
    exact List.mem_filterMap.2 ⟨_, hi, rfl⟩

end Item

open Item

/-- The items are nodes of one category with tokens of some kinds among them. -/
def Listed (c : Category) (among : TokenKind → Bool) (items : List Item) : Prop :=
  ∀ i ∈ items, match i with
    | .token t => among t.kind = true
    | .node c' _ => c' = c

/-- Tokens of the source that are read as one token. -/
inductive Folded : List Token → Token → Prop where
  | one (t : Token) : Folded [t] t
  /-- A keyword can be used as a name. -/
  | name {t : Token} : t.kind.isNameLike = true → Folded [t] t.asIdentifier
  /-- A dotted name. -/
  | dotted {raw : List Token} {t dot name : Token} :
      Folded raw t → t.kind = .identifier → dot.kind = .punctuator .dot →
      name.kind.isNameLike = true →
      Folded (raw ++ [dot, name]) (.join .identifier "." t name.asIdentifier)
  | forEach {first each : Token} :
      first.kind = .keyword .forKw → each.kind = .keyword .eachKw →
      Folded [first, each] (.join .forEach " " first each)

/-- Tokens that end a block, with the range that they cover. -/
inductive Finish (e : Ending) : List Token → Range → Prop where
  | one {t : Token} : (∀ next, e t.kind next = true) → Finish e [t] t.range
  | two {t u : Token} : e t.kind u.kind = true → Finish e [t, u] (t.range.merge u.range)

/-- An optional type or parent behind the keyword `mark`. -/
inductive Typed (mark : Keyword) : Option Token → List Item → Prop where
  | none : Typed mark none []
  | some {m t : Token} : m.kind = .keyword mark → t.kind = .identifier →
      Typed mark (some t) [.token m, .token t]

/-- An optional value behind a token of the kind `mark`. -/
inductive Valued (mark : TokenKind) : Option NumberedTree → List Item → Prop where
  | none : Valued mark none []
  | some {m : Token} {v : NumberedTree} : m.kind = mark →
      Valued mark (some v) [.token m, .node .expression v]

/-- What follows an arm: nothing, the last branch, or the next arm. -/
inductive Others (form : ArmForm) : Option NumberedTree → List Item → Prop where
  | none : Others form none []
  | last {e : Token} {b : NumberedTree} : e.kind = form.otherwise →
      Others form (some b) [.token e, .node .body b]
  | arm {e : Token} {t : NumberedTree} : e.kind = form.otherwise →
      Others form (some t) [.token e, .node (.arm form (.keyword .ifKw)) t]

/-- A parameter that an interface announces, with names for itself and for its type. -/
def InterfaceParameter.IsNamed (q : InterfaceParameter) : Prop :=
  q.name.kind = .identifier ∧ ∀ t ∈ q.type, t.kind = .identifier

/-- Statements that are one token. -/
inductive Single : (Token → NodeKind) → TokenKind → Prop where
  | stop : Single .stopStatement (.keyword .stopKw)
  | finish : Single .endStatement (.keyword .endKw)
  | error : Single .conditionalError (.directive .error)

/-- Statements that are a keyword with an optional token of some kinds behind it. -/
inductive Extended : (Token → Option Token → NodeKind) → Keyword → (TokenKind → Bool) → Prop where
  | exitLoop : Extended .exitLoop .exitKw isLoopWord
  | continueLoop : Extended .continueLoop .continueKw isLoopWord
  | library : Extended .library .libraryKw (· = .literal .string)
  | importStatement : Extended .importStatement .importKw (· = .literal .string)

/-- Statements that give a name to a value. -/
inductive Naming : (Token → Token → NodeKind) → TokenKind → Prop where
  | const : Naming .constDeclaration (.keyword .constKw)
  | conditional : Naming .conditionalConst (.directive .const)
  | alias : Naming .aliasDeclaration (.keyword .aliasKw)

/-- A token without a dot in its text. -/
def Token.IsPlain (t : Token) : Prop :=
  '.' ∉ t.text.toList

/-- A name, or a chain of dotted accesses to one, in which every token is plain. -/
inductive Tree.IsQualified {ι : Type} : Tree ι → Prop where
  | name {id : ι} {t : Token} {range : Option Range} :
      t.IsPlain → IsQualified ⟨id, .name t, range, []⟩
  | dotted {id : ι} {dot name : Token} {range : Option Range} {object : Tree ι} :
      IsQualified object → name.IsPlain →
      IsQualified ⟨id, .dottedGet dot name, range, [object]⟩

/-- Operators in front of an operand. -/
def isPrefixOperator (k : TokenKind) : Bool :=
  isSign k || k = .keyword .notKw

/-- Operators between two operands. -/
def isBinaryOperator (k : TokenKind) : Bool :=
  isPower k || isFactor k || isTerm k || isShift k || isComparison k || k = .keyword .andKw ||
    k = .keyword .orKw

/-- Tokens between the elements of a list in brackets. -/
def isListMark (k : TokenKind) : Bool :=
  isBlank k || k = .punctuator .comma

/-- Names and the words that can stand for one behind a dot. -/
def isAccessMark : TokenKind → Bool
  | .punctuator .dot | .punctuator .questionDot => true
  | _ => false

/-- What opens the indexes of an access: a bracket, which may follow a question mark. -/
inductive IndexOpening : Option Token → Token → Prop where
  | bare {o : Token} : o.kind = .punctuator .openSquare → IndexOpening none o
  | question {o : Token} : o.kind = .punctuator .questionSquare → IndexOpening none o
  | questionDot {q o : Token} : q.kind = .punctuator .questionDot →
      o.kind = .punctuator .openSquare → IndexOpening (some q) o

/--
The productions of the grammar: for a node in the place of a category, its kind, its range and the
items that it is made of.
-/
inductive Production : Category → NodeKind → Option Range → List Item → Prop where
  | body {items} : Listed .statement isSeparator items →
      Production .body .body (Range.bounding ((nodes items).map Tree.range)) items
  | comment {c t} : c = .statement ∨ c = .member → t.kind = .comment →
      Production c (.comment t) (some t.range) [.token t]
  | counter {name op v} : name.kind = .identifier → op.kind = .punctuator .equal →
      Production .counter (.counter name op) (Range.bounding [some name.range, v.range])
        [.token name, .token op, .node .expression v]
  | increment {v op} : isCount op.kind = true →
      Production .statement (.increment op) (Range.bounding [v.range, some op.range])
        [.node .expression v, .token op]
  | expressionStatement {v} :
      Production .statement .expressionStatement v.range [.node .expression v]
  | print {k items} : k.kind = .keyword .printKw ∨ k.kind = .punctuator .question →
      Listed .expression isPrintSeparator items →
      Production .statement (.print k)
        (Range.bounding (some k.range :: (nodes items).map Tree.range)) (.token k :: items)
  | arm {form k condition thens b other others} :
      (∀ t ∈ thens, t.kind = .keyword .thenKw) → (form = .inline → b.children ≠ []) →
      Others form other others →
      Production (.arm form k.kind) (form.kind k) (form.range k condition b other)
        (.token k :: .node .expression condition :: tokens thens ++ .node .body b :: others)
  | whileLoop {k condition b ends r} : k.kind = .keyword .whileKw →
      Finish (.block .whileKw) ends r →
      Production .statement (.whileLoop k) (some (k.range.merge r))
        (.token k :: .node .expression condition :: .node .body b :: tokens ends)
  | forLoop {k i mark f step steps b ends r} : k.kind = .keyword .forKw →
      mark.kind = .keyword .toKw → Valued (.keyword .stepKw) step steps →
      Finish .forBlock ends r →
      Production .statement (.forLoop k) (some (k.range.merge r))
        (.token k :: .node .counter i :: .token mark :: .node .expression f ::
          (steps ++ .node .body b :: tokens ends))
  | forEachLoop {k item mark target b ends r} : k.kind = .forEach →
      item.kind = .identifier → mark.kind = .keyword .inKw → Finish .forBlock ends r →
      Production .statement (.forEachLoop k item) (some (k.range.merge r))
        (.token k :: .token item :: .token mark :: .node .expression target :: .node .body b ::
          tokens ends)
  | extended {make word wanted k extra} : Extended make word wanted → k.kind = .keyword word →
      (∀ t ∈ extra, wanted t.kind = true) →
      Production .statement (make k extra)
        (Range.bounding [some k.range, extra.map Token.range]) (.token k :: tokens extra.toList)
  | returnStatement {k} {value : Option NumberedTree} : k.kind = .keyword .returnKw →
      Production .statement (.returnStatement k)
        (Range.bounding [some k.range, value.bind Tree.range])
        (.token k :: value.toList.map (.node .expression))
  | throwStatement {k v} : k.kind = .keyword .throwKw →
      Production .statement (.throwStatement k) (Range.bounding [some k.range, v.range])
        [.token k, .node .expression v]
  | dim {k name opening items close} : k.kind = .keyword .dimKw → name.kind = .identifier →
      opening.kind = .punctuator .openSquare → Listed .expression isListMark items →
      close.kind = .punctuator .closeSquare →
      Production .statement (.dim k name) (some (k.range.merge close.range))
        (.token k :: .token name :: .token opening :: (items ++ [.token close]))
  | tryStatement {k b ends r} {c : Option NumberedTree} : k.kind = .keyword .tryKw →
      Finish (.block .tryKw) ends r →
      Production .statement (.tryStatement k) (some (k.range.merge r))
        (.token k :: .node .body b :: (c.toList.map (.node .clause) ++ tokens ends))
  | catchClause {k exception b} : k.kind = .keyword .catchKw →
      (∀ t ∈ exception, t.kind = .identifier) →
      Production .clause (.catchClause k exception)
        (Range.bounding [some k.range, exception.map Token.range, b.range])
        (.token k :: (tokens exception.toList ++ [.node .body b]))
  | single {make kind t} : Single make kind → t.kind = kind →
      Production .statement (make t) (some t.range) [.token t]
  | named {make kind k name op v} : Naming make kind → k.kind = kind →
      name.kind = .identifier → op.kind = .punctuator .equal →
      Production .statement (make k name) (Range.bounding [some k.range, v.range])
        [.token k, .token name, .token op, .node .expression v]
  | typecast {k v mark type} : k.kind = .keyword .typecastKw → mark.kind = .keyword .asKw →
      type.kind = .identifier →
      Production .statement (.typecast k type) (some (k.range.merge type.range))
        [.token k, .node .expression v, .token mark, .token type]
  | function {name f} : name.kind = .identifier →
      Production .statement (.function name) f.range [.node (.definition name) f]
  | namespaceDeclaration {k name b ends r} : k.kind = .keyword .namespaceKw →
      name.IsQualified → Finish (.block .namespaceKw) ends r →
      Production .statement (.namespaceDeclaration k) (some (k.range.merge r))
        (.token k :: .node .expression name :: .node .body b :: tokens ends)
  | classDeclaration {k name parent parents items ends r} : k.kind = .keyword .classKw →
      name.kind = .identifier → Typed .extendsKw parent parents →
      Listed .member isSeparator items → Finish (.block .classKw) ends r →
      Production .statement (.classDeclaration k name parent) (some (k.range.merge r))
        (.token k :: .token name :: (parents ++ (items ++ tokens ends)))
  | interfaceDeclaration {k name parent parents items ends r} :
      k.kind = .keyword .interfaceKw → name.kind = .identifier →
      Typed .extendsKw parent parents → Listed .member isSeparator items →
      Finish (.block .interfaceKw) ends r →
      Production .statement (.interfaceDeclaration k name parent) (some (k.range.merge r))
        (.token k :: .token name :: (parents ++ (items ++ tokens ends)))
  | enumDeclaration {k name items ends r} : k.kind = .keyword .enumKw →
      name.kind = .identifier → Listed .member isSeparator items →
      Finish (.block .enumKw) ends r →
      Production .statement (.enumDeclaration k name) (some (k.range.merge r))
        (.token k :: .token name :: (items ++ tokens ends))
  | method {access overriding name f} : (∀ t ∈ access, isAccess t.kind = true) →
      (∀ t ∈ overriding, t.kind = .keyword .overrideKw) → name.kind = .identifier →
      Production .member (.method access overriding name)
        (Range.bounding [(access <|> overriding).map Token.range, f.range])
        (tokens access.toList ++ (tokens overriding.toList ++ [.node (.definition name) f]))
  | field {access overriding name type types value values} :
      (∀ t ∈ access, isAccess t.kind = true) →
      (∀ t ∈ overriding, t.kind = .keyword .overrideKw) → name.kind = .identifier →
      Typed .asKw type types → Valued (.punctuator .equal) value values →
      Production .member (.field access name type)
        (Range.bounding [(access <|> overriding).map Token.range, some name.range,
          type.map Token.range, value.bind Tree.range])
        (tokens access.toList ++ (tokens overriding.toList ++ .token name :: (types ++ values)))
  | interfaceField {name type types} : name.kind = .identifier → Typed .asKw type types →
      Production .member (.interfaceField name type)
        (some (name.range.merge ((type.map Token.range).getD name.range)))
        (.token name :: types)
  | interfaceMethod {k name parameters returns opening p close types} :
      isFunctionWord k.kind = true → name.kind = .identifier →
      opening.kind = .punctuator .openParen → close.kind = .punctuator .closeParen →
      Typed .asKw returns types → (∀ q ∈ parameters, q.IsNamed) →
      Production .member (.interfaceMethod k name parameters returns)
        (some (k.range.merge ((returns.map Token.range).getD close.range)))
        (.token k :: .token name :: .token opening :: (tokens p ++ .token close :: types))
  | enumMember {name value values} : name.kind = .identifier →
      Valued (.punctuator .equal) value values →
      Production .member (.enumMember name)
        (Range.bounding [some name.range, value.bind Tree.range]) (.token name :: values)
  | literal {t} : t.kind.isLiteral = true →
      Production .expression (.literal t) (some t.range) [.token t]
  | name {t} : t.kind = .identifier →
      Production .expression (.name t) (some t.range) [.token t]
  | unary {op v} : isPrefixOperator op.kind = true →
      Production .expression (.unary op) (Range.bounding [some op.range, v.range])
        [.token op, .node .expression v]
  | binary {l op r} : isBinaryOperator op.kind = true →
      Production .expression (.binary op) (Range.bounding [l.range, r.range])
        [.node .expression l, .token op, .node .expression r]
  | grouping {opening before v behind close} : opening.kind = .punctuator .openParen →
      (∀ t ∈ before ++ behind, isBlank t.kind = true) → close.kind = .punctuator .closeParen →
      Production .expression .grouping (some (opening.range.merge close.range))
        (.token opening :: (tokens before ++ .node .expression v :: (tokens behind ++
          [.token close])))
  | dottedGet {object dot name} : isAccessMark dot.kind = true → name.kind = .identifier →
      Production .expression (.dottedGet dot name)
        (Range.bounding [object.range, some name.range])
        [.node .expression object, .token dot, .token name]
  | indexedGet {object question opening items close} : IndexOpening question opening →
      Listed .expression isListMark items → close.kind = .punctuator .closeSquare →
      Production .expression (.indexedGet question opening close)
        (Range.bounding [object.range, some close.range])
        (.node .expression object :: (tokens question.toList ++ .token opening ::
          (items ++ [.token close])))
  | call {c callee opening items close} : c = .expression ∨ c = .construction close →
      opening.kind = .punctuator .openParen → Listed .expression isListMark items →
      close.kind = .punctuator .closeParen →
      Production c .call (Range.bounding [callee.range, some close.range])
        (.node .expression callee :: .token opening :: (items ++ [.token close]))
  | callfunc {callee op method opening items close} : op.kind = .punctuator .atDot →
      method.kind = .identifier → opening.kind = .punctuator .openParen →
      Listed .expression isListMark items → close.kind = .punctuator .closeParen →
      Production .expression (.callfunc op method)
        (Range.bounding [callee.range, some close.range])
        (.node .expression callee :: .token op :: .token method :: .token opening ::
          (items ++ [.token close]))
  | new {k call close} : k.kind = .keyword .newKw →
      Production .expression (.new k) (some (k.range.merge close.range))
        [.token k, .node (.construction close) call]
  | array {opening items close} : opening.kind = .punctuator .openSquare →
      Listed .expression isListMark items → close.kind = .punctuator .closeSquare →
      Production .expression .array (some (opening.range.merge close.range))
        (.token opening :: (items ++ [.token close]))
  | record {opening items close} : opening.kind = .punctuator .openCurly →
      Listed .recordMember isListMark items → close.kind = .punctuator .closeCurly →
      Production .expression .record (some (opening.range.merge close.range))
        (.token opening :: (items ++ [.token close]))
  | recordMember {key colon blanks v} :
      key.kind = .literal .string ∨ key.kind = .identifier →
      colon.kind = .punctuator .colon → (∀ t ∈ blanks, isBlank t.kind = true) →
      Production .recordMember (.recordMember key) (Range.bounding [some key.range, v.range])
        (.token key :: .token colon :: (tokens blanks ++ [.node .expression v]))
  | functionExpression {c k opening items close returns types b ends r} {name : Option Token} :
      c = .ofFunction name →
      isFunctionWord k.kind = true → (∀ t ∈ name, t.kind = .identifier) →
      opening.kind = .punctuator .openParen → Listed .parameter isListMark items →
      close.kind = .punctuator .closeParen → Typed .asKw returns types →
      Finish (.block (functionWord k)) ends r →
      Production c (.functionExpression k returns) (some (k.range.merge r))
        (.token k :: (tokens name.toList ++ .token opening :: (items ++ .token close ::
          (types ++ .node .body b :: tokens ends))))
  | parameter {name value values type types} : name.kind = .identifier →
      Valued (.punctuator .equal) value values → Typed .asKw type types →
      Production .parameter (.parameter name type)
        (Range.bounding [some name.range, value.bind Tree.range, type.map Token.range])
        (.token name :: (values ++ types))

/-- A form with its kind and the nodes below it. -/
structure Form.Has {α : Type} (form : Form α) (kind : NodeKind) (children : List α) : Prop where
  kind_eq : form.kind = kind
  children_eq : form.children = children

namespace Reading

/-- A reading after a node of the given form was made: libraries and imports are noted. -/
def allocate (s : Reading) (form : Form NumberedTree) (range : Option Range) : Reading :=
  { s with
    store := s.store.alloc (form.map Tree.id) range
    references :=
      match form.kind with
      | .library .. => s.references.addLibrary s.next
      | .importStatement .. => s.references.addImport s.next
      | _ => s.references }

/-- A reading after the node `target` became an assignment that covers `range`. -/
def reassign (s : Reading) (target : NumberedTree) (op : Token) (value : NumberedTree)
    (range : Option Range) : Reading :=
  { s with store := s.store.assign target.id op value.id range }

/-- A reading after the node `id` grew to cover `range`. -/
def grow (s : Reading) (id : Nat) (range : Range) : Reading :=
  { s with store := s.store.extend id range }

variable {s : Reading} {form : Form NumberedTree} {range : Option Range}

@[simp] theorem next_allocate : (s.allocate form range).next = s.next + 1 :=
  Store.size_alloc ..

@[simp] theorem next_reassign {target value : NumberedTree} {op : Token} :
    (s.reassign target op value range).next = s.next :=
  Store.size_assign ..

@[simp] theorem next_grow {id : Nat} {r : Range} : (s.grow id r).next = s.next :=
  Store.size_extend ..

end Reading

/-- The items that stand between two readings of one file. -/
inductive Reads : Reading → List Item → Reading → Prop where
  | nil (s : Reading) : Reads s [] s
  | token {s s' : Reading} {raw ts : List Token} {t : Token} {items : List Item} :
      Folded raw t → s.tokens = raw ++ ts → Reads { s with tokens := ts } items s' →
      Reads s (.token t :: items) s'
  | node {s u s' : Reading} {c : Category} {kind : NodeKind} {range : Option Range}
      {form : Form NumberedTree} {inside items : List Item} :
      Reads s inside u → Production c kind range inside → form.Has kind (nodes inside) →
      Reads (u.allocate form range) items s' →
      Reads s (.node c ⟨u.next, kind, range, nodes inside⟩ :: items) s'
  /-- A target becomes an assignment in its own place. -/
  | assignment {s u v s' : Reading} {target value t : NumberedTree} {op : Token}
      {items : List Item} :
      Reads s [.node .expression target] u → isAssignment op.kind = true →
      Reads u [.token op, .node .expression value] v → assignment? target op value = some t →
      Reads (v.reassign target op value t.range) items s' → Reads s (.node .statement t :: items) s'
  /-- A conditional on one line ends with its last arm. -/
  | inline {s u s' : Reading} {kind : NodeKind} {range : Option Range} {form : Form NumberedTree}
      {inside items : List Item} :
      Reads s inside u → Production (.arm .inline (.keyword .ifKw)) kind range inside →
      form.Has kind (nodes inside) → Reads (u.allocate form range) items s' →
      Reads s (.node .statement ⟨u.next, kind, range, nodes inside⟩ :: items) s'
  /-- The end of another conditional counts for its first arm only. -/
  | close {s u v s' : Reading} {arm : ArmForm} {kind : NodeKind} {range : Option Range}
      {form : Form NumberedTree} {inside items : List Item} {e : Ending} {ends : List Token}
      {r : Range} :
      Reads s inside u → Production (.arm arm arm.first) kind range inside → arm ≠ .inline →
      form.Has kind (nodes inside) → Reads (u.allocate form range) (tokens ends) v →
      Finish e ends r → Reads (v.grow u.next r) items s' →
      Reads s (.node .statement (Tree.extend ⟨u.next, kind, range, nodes inside⟩ r) :: items) s'

/-- A reading of tokens as the lexer gives them: the end is marked, and all names are plain. -/
structure Reading.IsLexed (s : Reading) : Prop where
  kind_eof : s.eof.kind = .eof
  plain : ∀ t ∈ s.tokens, t.kind.isNameLike = true → t.IsPlain

namespace Reads

variable {s u s' : Reading}

/-- Items behind one another. -/
theorem append {xs ys : List Item} (h : Reads s xs u) (h' : Reads u ys s') :
    Reads s (xs ++ ys) s' := by
  induction h with
  | nil => exact h'
  | token hf hs _ ih => exact .token hf hs (ih h')
  | node hi hp hform _ _ ih => exact .node hi hp hform (ih h')
  | assignment ht ho hv ha _ _ _ ih => exact .assignment ht ho hv ha (ih h')
  | inline hi hp hform _ _ ih => exact .inline hi hp hform (ih h')
  | close hi hp hf hform he hr _ _ _ ih => exact .close hi hp hf hform he hr (ih h')

/-- Between two lists of items there is a place in the source. -/
theorem split {xs ys : List Item} (h : Reads s (xs ++ ys) s') :
    ∃ u, Reads s xs u ∧ Reads u ys s' := by
  induction xs generalizing s with
  | nil => exact ⟨s, .nil s, h⟩
  | cons x xs ih =>
    cases h with
    | token hf hs hr =>
      obtain ⟨u, hx, hy⟩ := ih hr
      exact ⟨u, .token hf hs hx, hy⟩
    | node hi hp hform hr =>
      obtain ⟨u, hx, hy⟩ := ih hr
      exact ⟨u, .node hi hp hform hx, hy⟩
    | assignment ht ho hv ha hr =>
      obtain ⟨u, hx, hy⟩ := ih hr
      exact ⟨u, .assignment ht ho hv ha hx, hy⟩
    | inline hi hp hform hr =>
      obtain ⟨u, hx, hy⟩ := ih hr
      exact ⟨u, .inline hi hp hform hx, hy⟩
    | close hi hp hf hform he hr hn =>
      obtain ⟨u, hx, hy⟩ := ih hn
      exact ⟨u, .close hi hp hf hform he hr hx, hy⟩

/-- Items become a node. -/
theorem wrap {c : Category} {kind : NodeKind} {range : Option Range} {form : Form NumberedTree}
    {items : List Item} (h : Reads s items u) (hp : Production c kind range items)
    (hform : form.Has kind (nodes items)) :
    Reads s [.node c ⟨u.next, kind, range, nodes items⟩] (u.allocate form range) :=
  .node h hp hform (.nil _)

/-- The end of the source stays the same. -/
theorem eof_eq {items : List Item} (h : Reads s items s') : s'.eof = s.eof := by
  induction h with
  | nil => rfl
  | token _ _ _ ih => exact ih
  | node _ _ _ _ ihi ih => exact ih.trans ihi
  | assignment _ _ _ _ _ iht ihv ih => exact ih.trans (ihv.trans iht)
  | inline _ _ _ _ ihi ih => exact ih.trans ihi
  | close _ _ _ _ _ _ _ ihi ihe ih => exact ih.trans (ihe.trans ihi)

/-- What is left to read is the end of what was there before. -/
theorem suffix {items : List Item} (h : Reads s items s') : s'.tokens <:+ s.tokens := by
  induction h with
  | nil => exact List.suffix_refl _
  | token _ hs _ ih =>
    rw [hs]
    exact ih.trans (List.suffix_append _ _)
  | node _ _ _ _ ihi ih => exact ih.trans ihi
  | assignment _ _ _ _ _ iht ihv ih => exact ih.trans (ihv.trans iht)
  | inline _ _ _ _ ihi ih => exact ih.trans ihi
  | close _ _ _ _ _ _ _ ihi ihe ih => exact ih.trans (ihe.trans ihi)

/-- What is left to read was there before. -/
theorem subset_tokens {items : List Item} (h : Reads s items s') : s'.tokens ⊆ s.tokens :=
  h.suffix.subset

theorem isLexed {items : List Item} (h : Reads s items s') (hs : s.IsLexed) : s'.IsLexed where
  kind_eof := h.eof_eq ▸ hs.kind_eof
  plain t ht := hs.plain t (h.subset_tokens ht)

end Reads

/-- A node that is read at some place of `stream` has a property if the nodes it is made of have. -/
structure Inherits (stream : List Token) (P : Category → NumberedTree → Prop) : Prop where
  made {s u : Reading} {c : Category} {kind : NodeKind} {range : Option Range}
    {inside : List Item} : s.tokens <:+ stream → Reads s inside u →
      Production c kind range inside → (∀ d t, .node d t ∈ inside → P d t) →
      P c ⟨u.next, kind, range, nodes inside⟩
  assigned {s u v : Reading} {target value t : NumberedTree} {op : Token} :
    s.tokens <:+ stream → Reads s [.node .expression target] u → isAssignment op.kind = true →
      Reads u [.token op, .node .expression value] v → assignment? target op value = some t →
      P .expression target → P .expression value → P .statement t
  inlined {t : NumberedTree} : P (.arm .inline (.keyword .ifKw)) t → P .statement t
  closed {s u v : Reading} {arm : ArmForm} {kind : NodeKind} {range : Option Range}
    {form : Form NumberedTree} {inside : List Item} {e : Ending} {ends : List Token} {r : Range} :
    s.tokens <:+ stream → Reads s inside u → Production (.arm arm arm.first) kind range inside →
      Reads (u.allocate form range) (tokens ends) v → Finish e ends r →
      (∀ d t, .node d t ∈ inside → P d t) →
      P .statement (Tree.extend ⟨u.next, kind, range, nodes inside⟩ r)

/-- What nodes inherit holds of all nodes that are read. -/
theorem Reads.forall_node {s s' : Reading} {items : List Item} {stream : List Token}
    {P : Category → NumberedTree → Prop} (h : Reads s items s') (hP : Inherits stream P)
    (hs : s.tokens <:+ stream) : ∀ c t, .node c t ∈ items → P c t := by
  have cons {c : Category} {t : NumberedTree} {items : List Item} (ht : P c t)
      (hi : ∀ d u, .node d u ∈ items → P d u) : ∀ d u, .node d u ∈ .node c t :: items → P d u := by
    intro d u hu
    rcases List.mem_cons.1 hu with hu | hu
    · cases hu
      exact ht
    · exact hi d u hu
  induction h with
  | nil => exact fun _ _ ht => absurd ht List.not_mem_nil
  | token _ hraw _ ih =>
    have hrest := (List.suffix_append _ _).trans (hraw ▸ hs)
    exact fun c t ht => ih hrest c t ((List.mem_cons.1 ht).resolve_left nofun)
  | node hi hp _ _ ihi ih => exact cons (hP.made hs hi hp (ihi hs)) (ih (hi.suffix.trans hs))
  | assignment ht ho hv ha _ iht ihv ih =>
    have hs' := ht.suffix.trans hs
    have htarget := iht hs _ _ (.head _)
    have hvalue := ihv hs' _ _ (.tail _ (.head _))
    exact cons (hP.assigned hs ht ho hv ha htarget hvalue) (ih (hv.suffix.trans hs'))
  | inline hi hp _ _ ihi ih =>
    exact cons (hP.inlined (hP.made hs hi hp (ihi hs))) (ih (hi.suffix.trans hs))
  | close hi hp _ _ he hf _ ihi _ ih =>
    exact cons (hP.closed hs hi hp he hf (ihi hs)) (ih (he.suffix.trans (hi.suffix.trans hs)))

end BrighterCheck
