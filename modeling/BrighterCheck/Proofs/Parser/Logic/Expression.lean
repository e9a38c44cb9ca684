import BrighterCheck.Proofs.Parser.Logic.Basic

/-!
# Runs of blocks and expressions

Nested productions are run behind a token that was taken before, and every element of a list takes a
token, so a list ends also where the end of the source occurs inside it.
-/

namespace BrighterCheck

open BrighterCheck.Parser

/-- Nested productions end wherever less than `b` tokens are left. -/
structure Nested.Ends (n : Nested) (L : RunLogic) (b : Nat) (n' : Nested) : Prop where
  expression : EndsTaking L b n.expression n'.expression
  statement : EndsTaking L b n.statement n'.statement

namespace EndsFrom

variable {n n' : Nested} {L : RunLogic} {I : Reading → Prop} {b : Nat}

lemma typeName : EndsTaking L b Parser.typeName Parser.typeName := by
  refine expectName.thenAny fun first => iterate (fun read => ?_) first
  refine acceptOr rfl (fun dot => ?_) (.pure nofun)
  exact (expectName.bind fun name => .pure (G := fun _ => False) nofun).mapAny

lemma optionalType : Ends L b Parser.optionalType Parser.optionalType :=
  after (by nofun) typeName

lemma qualifiedName {role : NameRole} :
    EndsTaking L b (Parser.qualifiedName role) (Parser.qualifiedName role) := by
  refine expectIdentifier.thenAny fun first => node.bind fun name => iterate (fun object => ?_) name
  refine acceptOr rfl (fun dot => ?_) (.pure nofun)
  exact expectName.bind fun name => node.mapAny

lemma comment : EndsAt L .comment b Parser.comment Parser.comment :=
  (advance (by nofun)).thenAny fun _ => node

lemma isAtEnding {e : Ending} : Ends L b (Parser.isAtEnding e) (Parser.isAtEnding e) :=
  onKind fun _ => onFollowing fun _ => .pure nofun

lemma isAt {k : TokenKind} : Ends L b (Parser.isAt k) (Parser.isAt k) :=
  onKind fun _ => .pure nofun

/-- Every statement of a list takes a token. -/
lemma statements {e : Ending} (hn : n.Ends L b n') :
    Ends L b (Parser.statements n e) (Parser.statements n' e) := by
  refine many (skipSeparators.bind fun _ => isAt.bind fun atEnd => isAtEnding.bind fun ending => ?_)
  refine .ite (fun _ => .pure nofun) fun _ => ?_
  refine hn.statement.thenAny fun statement => onKind fun k => ?_
  exact .ite (fun _ => .pure nofun) fun _ => .refuseFor

lemma block {e : Ending} (hn : n.Ends L b n') :
    Ends L b (Parser.block n e) (Parser.block n' e) :=
  (statements hn).bind fun _ => node

lemma advanceTwo : Ends L b Parser.advanceTwo Parser.advanceTwo :=
  advanceAny.bind fun _ => advanceAny.bind fun _ => .pure nofun

lemma expectEnd {word : Keyword} : Ends L b (Parser.expectEnd word) (Parser.expectEnd word) := by
  refine acceptOr (by cases word <;> rfl) (fun joined => .pure nofun) ?_
  exact isAt.bind fun _ => onFollowing fun _ => .ite (fun _ => advanceTwo) fun _ => .refuseFor

/-- Every member of a list takes a token. -/
lemma members {word : Keyword} {member member' : Parser NumberedTree}
    (hm : EndsTaking L b member member') :
    Ends L b (Parser.members word member) (Parser.members word member') := by
  refine many (skipSeparators.bind fun _ => isAt.bind fun atEnd => isAtEnding.bind fun ending => ?_)
  refine .ite (fun _ => .pure nofun) fun _ => ?_
  -- A comment is read where one stands, and only there does it take a token.
  simp only [isAt_bind]
  refine onKind fun k => .ite (fun hk => ?_) fun _ => (hm.map fun _ _ => trivial).ofAny
  rw [of_decide_eq_true hk]
  exact comment.map fun _ _ => trivial

lemma parameter (hn : n.Ends L b n') :
    EndsTaking L (b + 1) (Parser.parameter n) (Parser.parameter n') :=
  expectIdentifier.bindTaking fun _ => (after (by nofun) hn.expression).bind fun _ =>
    optionalType.bind fun _ => node

lemma functionRest {keyword : Token} (hn : n.Ends L b n') :
    Ends L b (Parser.functionRest n keyword) (Parser.functionRest n' keyword) :=
  (expect (by nofun)).bind fun _ => skipNewlines.bind fun _ =>
    (commaList skipNewlines ((parameter hn).mono b.le_succ)).bind fun _ =>
      (expect (by nofun)).bind fun _ => optionalType.bind fun _ => (block hn).bind fun _ =>
        expectEnd.bind fun _ => node

/-- Operands with operators between them: the first operand takes a token, and every operator. -/
lemma binaryLayer {isOperator : TokenKind → Bool} {operand operand' : Parser NumberedTree}
    (he : isOperator .eof = false) (h : EndsTaking L b operand operand') :
    EndsTaking L b (Parser.binaryLayer isOperator operand)
      (Parser.binaryLayer isOperator operand') := by
  refine h.thenAny fun first => iterate (fun left => ?_) first
  exact acceptOr he (fun operator => h.bind fun right => node.mapAny) (.pure nofun)

lemma foldUnary {operators : List Token} {operand : NumberedTree} :
    Ends L b (operators.foldrM unaryNode operand) (operators.foldrM unaryNode operand) := by
  induction operators with
  | nil => exact .pure nofun
  | cons operator operators ih =>
    rw [List.foldrM_cons]
    exact ih.bind fun inner => node

lemma unaryLayer {isOperator : TokenKind → Bool} {operand operand' : Parser NumberedTree}
    (he : isOperator .eof = false) (h : EndsTaking L b operand operand') :
    EndsTaking L b (Parser.unaryLayer isOperator operand)
      (Parser.unaryLayer isOperator operand') :=
  (many (acceptIf he)).bind fun _ => h.thenAny fun _ => foldUnary

lemma arguments (hn : n.Ends L b n') :
    Ends L b (Parser.arguments n) (Parser.arguments n') :=
  skipNewlines.bind fun _ => (commaList skipNewlines hn.expression).bind fun _ =>
    (expect (by nofun)).bind fun _ => .pure nofun

/-- Every element of a list takes a token, whether a comma follows it or not. -/
lemma elements {close : TokenKind} {element element' : Parser NumberedTree}
    (h : EndsTaking L b element element') :
    Ends L b (Parser.elements close element) (Parser.elements close element') := by
  refine many (isAt.bind fun closed => .ite (fun _ => .pure nofun) fun _ => ?_)
  exact h.thenAny fun read => skipNewlines.bind fun _ => (accept (by nofun)).bind fun _ =>
    skipNewlines.bind fun _ => .pure nofun

lemma arrayRest {openSquare : Token} (hn : n.Ends L b n') :
    Ends L b (Parser.arrayRest n openSquare) (Parser.arrayRest n' openSquare) :=
  skipNewlines.bind fun _ => (elements hn.expression).bind fun _ =>
    (expect (by nofun)).bind fun _ => node

lemma recordKey : EndsTaking L b Parser.recordKey Parser.recordKey := by
  simp only [Parser.recordKey, isAt_bind]
  refine onKind fun k => .ite (fun hk => ?_) fun _ => expectName.ofAny
  rw [of_decide_eq_true hk]
  exact advance (by nofun)

lemma recordMember (hn : n.Ends L b n') :
    EndsTaking L (b + 1) (Parser.recordMember n) (Parser.recordMember n') :=
  recordKey.bindTaking fun _ => (expect (by nofun)).bind fun _ => skipNewlines.bind fun _ =>
    hn.expression.bind fun _ => node

lemma recordRest {openCurly : Token} (hn : n.Ends L b n') :
    Ends L b (Parser.recordRest n openCurly) (Parser.recordRest n' openCurly) :=
  skipNewlines.bind fun _ => (elements ((recordMember hn).mono b.le_succ)).bind fun _ =>
    (expect (by nofun)).bind fun _ => node

lemma newRest {keyword : Token} (hn : n.Ends L b n') :
    Ends L b (Parser.newRest n keyword) (Parser.newRest n' keyword) :=
  qualifiedName.bind fun _ => (expect (by nofun)).bind fun _ => (arguments hn).bind fun _ =>
    node.bind fun _ => node

lemma groupingRest {openParen : Token} (hn : n.Ends L b n') :
    Ends L b (Parser.groupingRest n openParen) (Parser.groupingRest n' openParen) :=
  skipNewlines.bind fun _ => hn.expression.bind fun _ => skipNewlines.bind fun _ =>
    (expect (by nofun)).bind fun _ => node

/-- A primary expression starts with a token, behind which others may be nested. -/
lemma primary (hn : n.Ends L b n') :
    EndsTaking L (b + 1) (Parser.primary n) (Parser.primary n') := by
  refine onKind fun k => ?_
  split
  -- Literals and names are a token alone; behind all others, something is nested.
  · exact (advance (by nofun)).thenAny fun _ => node
  · exact (advance (by nofun)).thenAny fun _ => node
  · exact (advance (by nofun)).thenAny fun _ => node
  · exact (advance (by nofun)).thenAny fun _ => node
  · exact (advance (by nofun)).thenAny fun _ => node
  · exact (advance (by nofun)).bindTaking fun _ => groupingRest hn
  · exact (advance (by nofun)).bindTaking fun _ => arrayRest hn
  · exact (advance (by nofun)).bindTaking fun _ => recordRest hn
  · exact (advance (by nofun)).bindTaking fun _ => functionRest hn
  · exact (advance (by nofun)).bindTaking fun _ => functionRest hn
  · exact (advance (by nofun)).bindTaking fun _ => newRest hn
  · exact refuseFor

lemma indexRest {object : NumberedTree} {questionDot : Option Token} {openSquare : Token}
    (hn : n.Ends L b n') :
    Ends L b (Parser.indexRest n object questionDot openSquare)
      (Parser.indexRest n' object questionDot openSquare) :=
  skipNewlines.bind fun _ => (commaList skipNewlines hn.expression).bind fun _ =>
    (expect (by nofun)).bind fun _ => node

/-- An accessor starts with a token as well. -/
lemma accessor {object : NumberedTree} (hn : n.Ends L b n') :
    EndsSteps L (b + 1) (Parser.accessor n object) (Parser.accessor n' object) := by
  refine onKind fun k => ?_
  split
  · exact (advance (by nofun)).thenAny fun _ => expectName.bind fun _ => node.mapAny
  · refine (advance (by nofun)).bindTaking fun dot => (accept (by nofun)).bind fun openSquare => ?_
    cases openSquare with
    | none => exact expectName.bind fun _ => node.mapAny
    | some openSquare => exact (indexRest hn).mapAny
  · exact (advance (by nofun)).bindTaking fun _ => (indexRest hn).mapAny
  · exact (advance (by nofun)).bindTaking fun _ => (indexRest hn).mapAny
  · exact (advance (by nofun)).bindTaking fun _ => (arguments hn).bind fun _ => node.mapAny
  · exact (advance (by nofun)).bindTaking fun _ => expectName.bind fun _ =>
      (expect (by nofun)).bind fun _ => (arguments hn).bind fun _ => node.mapAny
  · exact .pure nofun

lemma accessed (hn : n.Ends L b n') :
    EndsTaking L (b + 1) (Parser.accessed n) (Parser.accessed n') :=
  (primary hn).thenAny fun first => iterate (fun _ => accessor hn) first

lemma signed (hn : n.Ends L b n') : EndsTaking L (b + 1) (Parser.signed n) (Parser.signed n') :=
  unaryLayer rfl (accessed hn)

lemma sum (hn : n.Ends L b n') : EndsTaking L (b + 1) (Parser.sum n) (Parser.sum n') :=
  binaryLayer rfl (binaryLayer rfl (binaryLayer rfl (signed hn)))

lemma comparison (hn : n.Ends L b n') :
    EndsTaking L (b + 1) (Parser.comparison n) (Parser.comparison n') :=
  binaryLayer rfl (binaryLayer rfl (sum hn))

lemma expression (hn : n.Ends L b n') :
    EndsTaking L (b + 1) (Parser.expression n) (Parser.expression n') :=
  binaryLayer rfl (binaryLayer rfl (unaryLayer rfl (comparison hn)))

end EndsFrom

end BrighterCheck
