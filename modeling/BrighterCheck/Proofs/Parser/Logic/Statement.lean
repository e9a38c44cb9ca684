import BrighterCheck.Proofs.Parser.Logic.Conditional
import BrighterCheck.Parser.Statement

/-!
# Runs of statements

Every statement takes the token that it is told by. An error is reported at a token, but for targets
that cannot be assigned to, which are reported as a whole.
-/

namespace BrighterCheck

open BrighterCheck.Parser

/-- The logic lets an error be reported at whatever was read as a target. -/
def Nested.BlamesTargets (n : Nested) (L : RunLogic) : Prop :=
  ∀ ⦃s target u⦄, L.Valid s → accessed n s = .ok target u →
    ∀ operator, L.Blamed (target.range.getD operator)

namespace EndsFrom

variable {n n' : Nested} {L : RunLogic} {I : Reading → Prop} {b : Nat} {k : TokenKind}

lemma functionDeclaration (hn : n.Ends L b n') (hk : k ≠ .eof) :
    EndsAt L k (b + 1) (Parser.functionDeclaration n) (Parser.functionDeclaration n') :=
  (advance hk).bindTaking fun _ => expectIdentifier.bind fun _ => (functionRest hn).bind fun _ =>
    node

lemma namespaceDeclaration (hn : n.Ends L b n') (hk : k ≠ .eof) :
    EndsAt L k (b + 1) (Parser.namespaceDeclaration n) (Parser.namespaceDeclaration n') :=
  (advance hk).bindTaking fun _ => qualifiedName.bind fun _ => (block hn).bind fun _ =>
    expectEnd.bind fun _ => node

lemma method {access overriding : Option Token} {keyword : Token} (hn : n.Ends L b n') :
    Ends L b (Parser.method n access overriding keyword)
      (Parser.method n' access overriding keyword) :=
  expectName.bind fun _ => (functionRest hn).bind fun _ => node

lemma field {access overriding : Option Token} (hn : n.Ends L b n') :
    EndsTaking L (b + 1) (Parser.field n access overriding) (Parser.field n' access overriding) :=
  expectName.bindTaking fun _ => optionalType.bind fun _ => (after (by nofun) hn.expression).bind
    fun _ => node

/-- A member of a class takes a name at least. -/
lemma classMember (hn : n.Ends L b n') :
    EndsTaking L (b + 1) (Parser.classMember n) (Parser.classMember n') :=
  (acceptIf rfl).bind fun _ => (accept (by nofun)).bind fun _ =>
    acceptWithin le_rfl rfl (fun _ => method hn) (field hn)

lemma classDeclaration (hn : n.Ends L b n') (hk : k ≠ .eof) :
    EndsAt L k (b + 1) (Parser.classDeclaration n) (Parser.classDeclaration n') :=
  (advance hk).bindTaking fun _ => expectIdentifier.bind fun _ =>
    (after (by nofun) typeName).bind fun _ =>
      (members ((classMember hn).mono b.le_succ)).bind fun _ => expectEnd.bind fun _ => node

lemma interfaceParameter :
    EndsTaking L b Parser.interfaceParameter Parser.interfaceParameter :=
  expectIdentifier.thenAny fun _ => optionalType.bind fun _ => .pure nofun

lemma interfaceMethod {keyword : Token} :
    Ends L b (Parser.interfaceMethod keyword) (Parser.interfaceMethod keyword) :=
  expectName.bind fun _ => (expect (by nofun)).bind fun _ =>
    (commaList (.pure nofun) interfaceParameter).bind fun _ => (expect (by nofun)).bind fun _ =>
      optionalType.bind fun _ => node

lemma interfaceField : EndsTaking L b Parser.interfaceField Parser.interfaceField :=
  expectName.thenAny fun _ => optionalType.bind fun _ => node

lemma interfaceMember : EndsTaking L b Parser.interfaceMember Parser.interfaceMember :=
  acceptOr rfl (fun _ => interfaceMethod) interfaceField

lemma interfaceDeclaration (hk : k ≠ .eof) :
    EndsAt L k b Parser.interfaceDeclaration Parser.interfaceDeclaration :=
  (advance hk).thenAny fun _ => expectIdentifier.bind fun _ =>
    (after (by nofun) typeName).bind fun _ => (members interfaceMember).bind fun _ =>
      expectEnd.bind fun _ => node

lemma enumMember (hn : n.Ends L b n') :
    EndsTaking L (b + 1) (Parser.enumMember n) (Parser.enumMember n') :=
  expectName.bindTaking fun _ => (after (by nofun) hn.expression).bind fun _ => node

lemma enumDeclaration (hn : n.Ends L b n') (hk : k ≠ .eof) :
    EndsAt L k (b + 1) (Parser.enumDeclaration n) (Parser.enumDeclaration n') :=
  (advance hk).bindTaking fun _ => expectIdentifier.bind fun _ =>
    (members ((enumMember hn).mono b.le_succ)).bind fun _ => expectEnd.bind fun _ => node

lemma namedValue {role : NameRole} {make : Token → Token → NumberedTree → Form NumberedTree}
    (hn : n.Ends L b n') (hk : k ≠ .eof) :
    EndsAt L k (b + 1) (Parser.namedValue n role make) (Parser.namedValue n' role make) :=
  (advance hk).bindTaking fun _ => expectIdentifier.bind fun _ => (expect (by nofun)).bind fun _ =>
    hn.expression.bind fun _ => node

lemma single {make : Token → Form NumberedTree} (hk : k ≠ .eof) :
    EndsAt L k b (Parser.single make) (Parser.single make) :=
  (advance hk).thenAny fun _ => node

lemma withOptionalToken {wanted : TokenKind → Bool}
    {make : Token → Option Token → Form NumberedTree} (hk : k ≠ .eof) (he : wanted .eof = false) :
    EndsAt L k b (Parser.withOptionalToken wanted make) (Parser.withOptionalToken wanted make) :=
  (advance hk).thenAny fun _ => (acceptIf he).bind fun _ => node

lemma library (hk : k ≠ .eof) : EndsAt L k b Parser.library Parser.library :=
  (withOptionalToken hk rfl).thenAny fun _ => noteReference.bind fun _ => .pure nofun

lemma importStatement (hk : k ≠ .eof) :
    EndsAt L k b Parser.importStatement Parser.importStatement :=
  (withOptionalToken hk rfl).thenAny fun _ => noteReference.bind fun _ => .pure nofun

/-- An expression that is there takes a token. -/
lemma optionalExpression (hn : n.Ends L b n') :
    EndsSteps L b (Parser.optionalExpression n) (Parser.optionalExpression n') :=
  onKind fun _ => .ite (fun _ => .pure nofun) fun _ =>
    (hn.expression.map fun _ _ => trivial).ofAny

lemma returnStatement (hn : n.Ends L b n') (hk : k ≠ .eof) :
    EndsAt L k (b + 1) (Parser.returnStatement n) (Parser.returnStatement n') :=
  (advance hk).bindTaking fun _ => (optionalExpression hn).bind fun _ => node

lemma throwStatement (hn : n.Ends L b n') (hk : k ≠ .eof) :
    EndsAt L k (b + 1) (Parser.throwStatement n) (Parser.throwStatement n') :=
  (advance hk).bindTaking fun _ => hn.expression.bind fun _ => node

lemma printStatement (hn : n.Ends L b n') (hk : k ≠ .eof) :
    EndsAt L k (b + 1) (Parser.printStatement n) (Parser.printStatement n') :=
  (advance hk).bindTaking fun _ =>
    (many ((skip rfl).bind fun _ => optionalExpression hn)).bind fun _ => node

lemma dimStatement (hn : n.Ends L b n') (hk : k ≠ .eof) :
    EndsAt L k (b + 1) (Parser.dimStatement n) (Parser.dimStatement n') :=
  (advance hk).bindTaking fun _ => expectIdentifier.bind fun _ => (expect (by nofun)).bind fun _ =>
    (commaList (.pure nofun) hn.expression).bind fun _ => (expect (by nofun)).bind fun _ => node

lemma whileLoop (hn : n.Ends L b n') (hk : k ≠ .eof) :
    EndsAt L k (b + 1) (Parser.whileLoop n) (Parser.whileLoop n') :=
  (advance hk).bindTaking fun _ => hn.expression.bind fun _ => (block hn).bind fun _ =>
    expectEnd.bind fun _ => node

lemma expectForEnd : Ends L b Parser.expectForEnd Parser.expectForEnd :=
  acceptOr rfl (fun _ => (accept (by nofun)).bind fun _ => .pure nofun) expectEnd

lemma forEachRest {keyword : Token} (hn : n.Ends L b n') :
    Ends L b (Parser.forEachRest n keyword) (Parser.forEachRest n' keyword) :=
  expectIdentifier.bind fun _ => (expect (by nofun)).bind fun _ => hn.expression.bind fun _ =>
    (block hn).bind fun _ => expectForEnd.bind fun _ => node

lemma forRest {keyword : Token} (hn : n.Ends L b n') :
    Ends L b (Parser.forRest n keyword) (Parser.forRest n' keyword) :=
  expectIdentifier.bind fun _ => (expect (by nofun)).bind fun _ => hn.expression.bind fun _ =>
    node.bind fun _ => (expect (by nofun)).bind fun _ => hn.expression.bind fun _ =>
      (after (by nofun) hn.expression).bind fun _ => (block hn).bind fun _ =>
        expectForEnd.bind fun _ => node

lemma forLoop (hn : n.Ends L b n') (hk : k ≠ .eof) :
    EndsAt L k (b + 1) (Parser.forLoop n) (Parser.forLoop n') :=
  (advance hk).bindTaking fun _ => acceptOr rfl (fun _ => forEachRest hn) (forRest hn)

lemma optionalCatch (hn : n.Ends L b n') :
    Ends L b (Parser.optionalCatch n) (Parser.optionalCatch n') :=
  acceptOr rfl (fun _ => ((accept (by nofun)).bind fun _ => (block hn).bind fun _ => node).mapAny)
    (.pure nofun)

lemma tryStatement (hn : n.Ends L b n') (hk : k ≠ .eof) :
    EndsAt L k (b + 1) (Parser.tryStatement n) (Parser.tryStatement n') :=
  (advance hk).bindTaking fun _ => (block hn).bind fun _ => (optionalCatch hn).bind fun _ =>
    expectEnd.bind fun _ => node

lemma typecast (hn : n.Ends L b n') (hk : k ≠ .eof) :
    EndsAt L k (b + 1) (Parser.typecast n) (Parser.typecast n') :=
  (advance hk).bindTaking fun _ => hn.expression.bind fun _ => (expect (by nofun)).bind fun _ =>
    typeName.bind fun _ => node

/-- A target that was read is blamed if it cannot be assigned to. -/
lemma expressionStatement (hn : n.Ends L b n') (ht : n'.BlamesTargets L) :
    EndsTaking L (b + 1) (Parser.expressionStatement n) (Parser.expressionStatement n') := by
  refine (accessed hn).bindWith fun {s target u} hs hb hm hrun htakes => ?_
  have hlt : u.tokens.length < s.tokens.length := htakes trivial
  refine .after hrun (acceptOr (b := b) (H := fun _ => False) rfl (fun operator => ?_) ?_
    (L.valid_of_leads hs (L.leads hrun)) trivial (by omega)) fun _ _ => .inr hlt
  · refine hn.expression.bind fun value => ?_
    cases assignment? target operator value with
    | some statement => exact changeStore.bind fun _ => .pure nofun
    | none => exact .refuseAt (ht hs hm operator.range)
  · exact acceptOr rfl (fun operator => node) node

lemma keywordStatement {word : Keyword} (hn : n.Ends L b n') (ht : n'.BlamesTargets L) :
    EndsAt L (.keyword word) (b + 1) (Parser.keywordStatement n word)
      (Parser.keywordStatement n' word) := by
  have hexpression {word : Keyword} : EndsAt L (.keyword word) (b + 1)
      (Parser.expressionStatement n) (Parser.expressionStatement n') :=
    (expressionStatement hn ht).ofAny
  unfold Parser.keywordStatement
  split
  · exact onFollowing fun _ =>
      .ite (fun _ => functionDeclaration hn (by nofun)) fun _ => hexpression
  · exact onFollowing fun _ =>
      .ite (fun _ => functionDeclaration hn (by nofun)) fun _ => hexpression
  · exact namespaceDeclaration hn (by nofun)
  · exact classDeclaration hn (by nofun)
  · exact interfaceDeclaration (by nofun)
  · exact enumDeclaration hn (by nofun)
  · exact namedValue hn (by nofun)
  · exact importStatement (by nofun)
  · exact library (by nofun)
  · exact ifStatement hn (by nofun)
  · exact whileLoop hn (by nofun)
  · exact forLoop hn (by nofun)
  · exact withOptionalToken (by nofun) rfl
  · exact withOptionalToken (by nofun) rfl
  · exact returnStatement hn (by nofun)
  · exact dimStatement hn (by nofun)
  · exact tryStatement hn (by nofun)
  · exact throwStatement hn (by nofun)
  · exact printStatement hn (by nofun)
  · exact single (by nofun)
  · exact typecast hn (by nofun)
  · exact namedValue hn (by nofun)
  · exact onFollowing fun _ => .ite (fun _ => single (by nofun)) fun _ => refuse
  -- The words that end a block are refused, and what is left starts an expression.
  all_goals first
    | exact refuse
    | exact hexpression

lemma statement (hn : n.Ends L b n') (ht : n'.BlamesTargets L) :
    EndsTaking L (b + 1) (Parser.statement n) (Parser.statement n') := by
  refine onKind fun k => ?_
  split
  · exact comment
  · exact keywordStatement hn ht
  · exact printStatement hn (by nofun)
  · exact namedValue hn (by nofun)
  · exact conditionalBlock hn (by nofun)
  · exact single (by nofun)
  · exact (expressionStatement hn ht).ofAny

end EndsFrom

end BrighterCheck
