import BrighterCheck.Proofs.Parser.Passage.Expression
import BrighterCheck.Parser.Declaration

/-!
# Declarations in both sources

Every declaration ends with words of its own or with a name, a type or a value.
-/

namespace BrighterCheck.Passage

open BrighterCheck.Parser

variable {P : Passage} {n n' : Nested} {lax : Prop}

lemma TakesFrom.functionDeclaration {k : TokenKind} (hn : P.OnNested n n') (hk : k ≠ .eof) :
    P.TakesAt k P.OnTree (Parser.functionDeclaration n) (Parser.functionDeclaration n') := by
  refine advanceRest hk fun keyword _ => ?_
  refine expectIdentifier.carries.bind ?_
  rintro name _ ⟨rfl, -⟩
  refine (functionRest hn).carries.bind ?_
  rintro function _ rfl
  exact .node rfl (by simp) rfl

lemma TakesFrom.namespaceDeclaration {k : TokenKind} (hn : P.OnNested n n') (hk : k ≠ .eof) :
    P.TakesAt k P.OnTree (Parser.namespaceDeclaration n) (Parser.namespaceDeclaration n') := by
  refine advanceRest hk fun keyword _ => carries ?_
  refine .after qualifiedName.carries ?_
  rintro name _ rfl
  refine .after (.block hn (isBlind_block _)) ?_
  rintro body _ rfl
  refine expectEnd.bind ?_
  rintro finish _ rfl
  exact .node rfl (by simp) rfl

lemma CarriesFrom.optionalParent :
    P.Carries lax (fun o o' => o' = o.map P.relabel.token) Parser.optionalParent
      Parser.optionalParent :=
  .after (by nofun) (by nofun) (TakesFrom.typeName.mono fun _ _ h => h.1).carries

lemma TakesFrom.method {access overriding : Option Token} {keyword : Token}
    (hn : P.OnNested n n') :
    P.Takes P.OnTree (Parser.method n access overriding keyword)
      (Parser.method n' (access.map P.relabel.token) (overriding.map P.relabel.token)
        (P.relabel.token keyword)) := by
  refine expectName.bind ?_
  rintro name _ ⟨rfl, -⟩
  refine (functionRest hn).carries.bind ?_
  rintro function _ rfl
  refine .node rfl ?_ rfl
  cases access <;> simp

lemma TakesFrom.field {access overriding : Option Token} (hn : P.OnNested n n') :
    P.Takes P.OnTree (Parser.field n access overriding)
      (Parser.field n' (access.map P.relabel.token) (overriding.map P.relabel.token)) := by
  refine expectName.bind ?_
  rintro name _ ⟨rfl, -⟩
  refine CarriesFrom.optionalType.bind ?_
  rintro type _ rfl
  refine (CarriesFrom.after (by nofun) (by nofun) hn.expression.carries).bind ?_
  rintro value _ rfl
  refine .node rfl ?_ ?_
  · cases access <;> cases value <;> simp
  · cases value <;> rfl

lemma TakesFrom.classMember (hn : P.OnNested n n') :
    P.Takes P.OnTree (Parser.classMember n) (Parser.classMember n') := by
  refine .after (CarriesFrom.acceptIf rfl (by nofun)) ?_
  rintro access _ ⟨rfl, -⟩
  refine .after (CarriesFrom.accept (by nofun) (by nofun)) ?_
  rintro overriding _ ⟨rfl, -⟩
  exact acceptIf rfl (fun _ _ => (method hn).carries) fun _ _ => (field hn).ofAny

lemma TakesFrom.classDeclaration {k : TokenKind} (hn : P.OnNested n n') (hk : k ≠ .eof) :
    P.TakesAt k P.OnTree (Parser.classDeclaration n) (Parser.classDeclaration n') := by
  refine advanceRest hk fun keyword _ => carries ?_
  refine .after expectIdentifier.carries ?_
  rintro name _ ⟨rfl, -⟩
  refine .after CarriesFrom.optionalParent ?_
  rintro parent _ rfl
  refine .after (.members (classMember hn)) ?_
  rintro inside _ rfl
  refine expectEnd.bind ?_
  rintro finish _ rfl
  exact .node rfl (by simp) rfl

lemma CarriesFrom.interfaceParameter :
    P.Carries lax (fun p p' => p' = P.relabel.parameter p) Parser.interfaceParameter
      Parser.interfaceParameter := by
  refine TakesFrom.expectIdentifier.carries.bind ?_
  rintro name _ ⟨rfl, -⟩
  refine optionalType.bind ?_
  rintro type _ rfl
  exact .pure rfl

lemma TakesFrom.interfaceMethod {keyword : Token} :
    P.Takes P.OnTree (Parser.interfaceMethod keyword)
      (Parser.interfaceMethod (P.relabel.token keyword)) := by
  refine expectName.bind ?_
  rintro name _ ⟨rfl, -⟩
  refine (expect (by nofun)).carries.bind fun _ _ _ => ?_
  refine (CarriesFrom.commaList rfl (.pure trivial) .interfaceParameter).bind ?_
  rintro parameters _ rfl
  refine (expect (by nofun)).carries.bind ?_
  rintro close _ ⟨rfl, -⟩
  refine CarriesFrom.optionalType.bind ?_
  rintro returns _ rfl
  refine .node rfl ?_ rfl
  cases returns <;> simp

lemma TakesFrom.interfaceField : P.Takes P.OnTree Parser.interfaceField Parser.interfaceField := by
  refine expectName.bind ?_
  rintro name _ ⟨rfl, -⟩
  refine CarriesFrom.optionalType.bind ?_
  rintro type _ rfl
  refine .node rfl ?_ rfl
  cases type <;> simp

lemma TakesFrom.interfaceMember :
    P.Takes P.OnTree Parser.interfaceMember Parser.interfaceMember :=
  acceptIf rfl (fun _ _ => interfaceMethod.carries) fun _ _ => interfaceField.ofAny

lemma TakesFrom.interfaceDeclaration {k : TokenKind} (hk : k ≠ .eof) :
    P.TakesAt k P.OnTree Parser.interfaceDeclaration Parser.interfaceDeclaration := by
  refine advanceRest hk fun keyword _ => carries ?_
  refine .after expectIdentifier.carries ?_
  rintro name _ ⟨rfl, -⟩
  refine .after CarriesFrom.optionalParent ?_
  rintro parent _ rfl
  refine .after (.members interfaceMember) ?_
  rintro inside _ rfl
  refine expectEnd.bind ?_
  rintro finish _ rfl
  exact .node rfl (by simp) rfl

lemma TakesFrom.enumMember (hn : P.OnNested n n') :
    P.Takes P.OnTree (Parser.enumMember n) (Parser.enumMember n') := by
  refine expectName.bind ?_
  rintro name _ ⟨rfl, -⟩
  refine (CarriesFrom.after (by nofun) (by nofun) hn.expression.carries).bind ?_
  rintro value _ rfl
  refine .node rfl ?_ ?_
  · cases value <;> simp
  · cases value <;> rfl

lemma TakesFrom.enumDeclaration {k : TokenKind} (hn : P.OnNested n n') (hk : k ≠ .eof) :
    P.TakesAt k P.OnTree (Parser.enumDeclaration n) (Parser.enumDeclaration n') := by
  refine advanceRest hk fun keyword _ => carries ?_
  refine .after expectIdentifier.carries ?_
  rintro name _ ⟨rfl, -⟩
  refine .after (.members (enumMember hn)) ?_
  rintro inside _ rfl
  refine expectEnd.bind ?_
  rintro finish _ rfl
  exact .node rfl (by simp) rfl

lemma TakesFrom.namedValue {k : TokenKind} {role : NameRole}
    {make : Token → Token → NumberedTree → Form NumberedTree} (hn : P.OnNested n n') (hk : k ≠ .eof)
    (hm : ∀ t u v, (make (P.relabel.token t) (P.relabel.token u) (P.relabel.tree v)).kind =
      P.relabel.kind (make t u v).kind) (hc : ∀ t u v, (make t u v).children = [v]) :
    P.TakesAt k P.OnTree (Parser.namedValue n role make) (Parser.namedValue n' role make) := by
  refine advanceRest hk fun keyword _ => ?_
  refine expectIdentifier.carries.bind ?_
  rintro name _ ⟨rfl, -⟩
  refine (expect (by nofun)).carries.bind fun _ _ _ => ?_
  refine hn.expression.carries.bind ?_
  rintro value _ rfl
  exact .node (hm keyword name value) (by simp) (by simp [hc])

end BrighterCheck.Passage
