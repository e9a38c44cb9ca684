import BrighterCheck.Proofs.Parser.Passage.Block
import BrighterCheck.Parser.Expression

/-!
# Expressions in both sources

Line ends are passed over inside brackets only, and brackets are closed.
-/

namespace BrighterCheck.Passage

open BrighterCheck.Parser

variable {P : Passage} {n n' : Nested} {lax : Prop}

lemma TakesFrom.binaryLayer {isOperator : TokenKind → Bool} {operand operand' : Parser NumberedTree}
    (he : isOperator .eof = false) (hn : isOperator .newline = false)
    (h : P.Takes P.OnTree operand operand') :
    P.Takes P.OnTree (Parser.binaryLayer isOperator operand)
      (Parser.binaryLayer isOperator operand') := by
  refine h.bind ?_
  rintro first _ rfl
  refine .iterate ?_ rfl
  rintro left _ rfl
  refine (CarriesFrom.acceptIf he (by simp [hn])).bind ?_
  rintro (_ | operator) _ ⟨rfl, -⟩
  · exact .pure .none
  · refine h.carries.bind ?_
    rintro right _ rfl
    exact .mapSome (.node rfl (by simp) rfl)

lemma CarriesFrom.foldUnary {operators : List Token} {operand : NumberedTree} :
    P.Carries lax P.OnTree (operators.foldrM unaryNode operand)
      ((operators.map P.relabel.token).foldrM unaryNode (P.relabel.tree operand)) := by
  induction operators with
  | nil => exact .pure rfl
  | cons operator operators ih =>
    rw [List.map_cons, List.foldrM_cons, List.foldrM_cons]
    refine ih.bind ?_
    rintro inner _ rfl
    exact .node rfl (by simp) rfl

lemma TakesFrom.unaryLayer {isOperator : TokenKind → Bool} {operand operand' : Parser NumberedTree}
    (he : isOperator .eof = false) (h : P.Takes P.OnTree operand operand') :
    P.Takes P.OnTree (Parser.unaryLayer isOperator operand)
      (Parser.unaryLayer isOperator operand') := by
  have hoperators : P.Carries True (fun o o' => o' = o.map P.relabel.token)
      (Parser.acceptIf isOperator) (Parser.acceptIf isOperator) :=
    (CarriesFrom.acceptIf he fun _ => trivial).mono fun _ _ h => h.1
  refine .after (.many hoperators) ?_
  rintro operators _ rfl
  refine h.bind ?_
  rintro innermost _ rfl
  exact .foldUnary

lemma TakesFrom.arguments (hn : P.OnNested n n') :
    P.Takes (fun p p' => p' = (p.1.map P.relabel.tree, P.relabel.token p.2))
      (Parser.arguments n) (Parser.arguments n') := by
  refine .after CarriesFrom.skipNewlines fun _ _ _ => ?_
  refine .after (.commaList rfl .skipNewlines hn.expression.carries) ?_
  rintro values _ rfl
  refine (expect (by nofun)).bind ?_
  rintro close _ ⟨rfl, -⟩
  exact .pure rfl

lemma CarriesFrom.elements {close : TokenKind} {element element' : Parser NumberedTree}
    (h : P.Takes P.OnTree element element') :
    P.Carries True P.OnTrees (Parser.elements close element) (Parser.elements close element') := by
  refine .many ?_
  refine CarriesFrom.isAt.bind ?_
  rintro closed _ rfl
  refine .ite (fun _ => .pure rfl) fun _ => ?_
  refine h.carries.bind ?_
  rintro read _ rfl
  refine CarriesFrom.skipNewlines.bind fun _ _ _ => ?_
  refine (CarriesFrom.accept (by nofun) (by nofun)).bind fun _ _ _ => ?_
  refine CarriesFrom.skipNewlines.bind fun _ _ _ => ?_
  exact .pure rfl

lemma TakesFrom.arrayRest {openSquare : Token} (hn : P.OnNested n n') :
    P.Takes P.OnTree (Parser.arrayRest n openSquare)
      (Parser.arrayRest n' (P.relabel.token openSquare)) := by
  refine .after CarriesFrom.skipNewlines fun _ _ _ => ?_
  refine .after (.elements hn.expression) ?_
  rintro values _ rfl
  refine (expect (by nofun)).bind ?_
  rintro close _ ⟨rfl, -⟩
  exact .node rfl (by simp) rfl

lemma TakesFrom.recordKey :
    P.Takes (fun t t' => t' = P.relabel.token t) Parser.recordKey Parser.recordKey := by
  simp only [Parser.recordKey, isAt_bind]
  refine onKind fun k => .ite (fun hk => ?_) fun _ => (expectName.mono fun _ _ h => h.1).ofAny
  rw [of_decide_eq_true hk]
  exact (advance (by nofun)).mono fun _ _ h => h.1

lemma TakesFrom.recordMember (hn : P.OnNested n n') :
    P.Takes P.OnTree (Parser.recordMember n) (Parser.recordMember n') := by
  refine .after recordKey.carries ?_
  rintro key _ rfl
  refine .after (expect (by nofun)).carries fun _ _ _ => ?_
  refine .after CarriesFrom.skipNewlines fun _ _ _ => ?_
  refine hn.expression.bind ?_
  rintro value _ rfl
  exact .node rfl (by simp) rfl

lemma TakesFrom.recordRest {openCurly : Token} (hn : P.OnNested n n') :
    P.Takes P.OnTree (Parser.recordRest n openCurly)
      (Parser.recordRest n' (P.relabel.token openCurly)) := by
  refine .after CarriesFrom.skipNewlines fun _ _ _ => ?_
  refine .after (.elements (recordMember hn)) ?_
  rintro values _ rfl
  refine (expect (by nofun)).bind ?_
  rintro close _ ⟨rfl, -⟩
  exact .node rfl (by simp) rfl

lemma TakesFrom.newRest {keyword : Token} (hn : P.OnNested n n') :
    P.Takes P.OnTree (Parser.newRest n keyword)
      (Parser.newRest n' (P.relabel.token keyword)) := by
  refine qualifiedName.bind ?_
  rintro callee _ rfl
  refine (expect (by nofun)).carries.bind fun _ _ _ => ?_
  refine (arguments hn).carries.bind ?_
  rintro ⟨values, close⟩ _ rfl
  refine CarriesFrom.bind (R := P.OnTree) (.node rfl (by simp) rfl) ?_
  rintro call _ rfl
  exact .node rfl (by simp) rfl

lemma TakesFrom.groupingRest {openParen : Token} (hn : P.OnNested n n') :
    P.Takes P.OnTree (Parser.groupingRest n openParen)
      (Parser.groupingRest n' (P.relabel.token openParen)) := by
  refine .after CarriesFrom.skipNewlines fun _ _ _ => ?_
  refine .after hn.expression.carries ?_
  rintro inner _ rfl
  refine .after CarriesFrom.skipNewlines fun _ _ _ => ?_
  refine (expect (by nofun)).bind ?_
  rintro close _ ⟨rfl, -⟩
  exact .node rfl (by simp) rfl

/-- A node of one token, which is not the end. -/
lemma TakesFrom.advanceLeaf {k : TokenKind} {make : Token → Form NumberedTree} (hk : k ≠ .eof)
    (hm : ∀ t, (make (P.relabel.token t)).kind = P.relabel.kind (make t).kind)
    (hc : ∀ t, (make t).children = []) :
    P.TakesAt k P.OnTree (Parser.advance >>= fun t => leaf (make t) t)
      (Parser.advance >>= fun t => leaf (make t) t) := by
  refine (advance hk).bind ?_
  rintro t _ ⟨rfl, -⟩
  exact .node (hm t) rfl (by simp [hc])

/-- What follows one token, which is not the end. -/
lemma TakesFrom.advanceRest {α β : Type} {R : α → β → Prop} {k : TokenKind} {f : Token → Parser α}
    {f' : Token → Parser β} (hk : k ≠ .eof)
    (h : ∀ t, t.kind = k → P.Carries False R (f t) (f' (P.relabel.token t))) :
    P.TakesAt k R (Parser.advance >>= f) (Parser.advance >>= f') := by
  refine (advance hk).bind ?_
  rintro t _ ⟨rfl, ht⟩
  exact h t ht

lemma TakesFrom.primary (hn : P.OnNested n n') :
    P.Takes P.OnTree (Parser.primary n) (Parser.primary n') := by
  refine onKind fun k => ?_
  split
  · exact advanceLeaf (by nofun) (fun _ => rfl) fun _ => rfl
  · exact advanceLeaf (by nofun) (fun _ => rfl) fun _ => rfl
  · exact advanceLeaf (by nofun) (fun _ => rfl) fun _ => rfl
  · exact advanceLeaf (by nofun) (fun _ => rfl) fun _ => rfl
  · exact advanceLeaf (by nofun) (fun _ => rfl) fun _ => rfl
  · exact advanceRest (by nofun) fun _ _ => (groupingRest hn).carries
  · exact advanceRest (by nofun) fun _ _ => (arrayRest hn).carries
  · exact advanceRest (by nofun) fun _ _ => (recordRest hn).carries
  · exact advanceRest (by nofun) fun _ _ => (functionRest hn).carries
  · exact advanceRest (by nofun) fun _ _ => (functionRest hn).carries
  · exact advanceRest (by nofun) fun _ _ => (newRest hn).carries
  · exact refuseFor

lemma TakesFrom.indexRest {object : NumberedTree} {questionDot : Option Token}
    {openSquare : Token} (hn : P.OnNested n n') :
    P.Takes P.OnTree (Parser.indexRest n object questionDot openSquare)
      (Parser.indexRest n' (P.relabel.tree object) (questionDot.map P.relabel.token)
        (P.relabel.token openSquare)) := by
  refine .after CarriesFrom.skipNewlines fun _ _ _ => ?_
  refine .after (.commaList rfl .skipNewlines hn.expression.carries) ?_
  rintro indexes _ rfl
  refine (expect (by nofun)).bind ?_
  rintro close _ ⟨rfl, -⟩
  exact .node rfl (by simp) rfl

lemma CarriesFrom.accessor {object : NumberedTree} (hn : P.OnNested n n') :
    P.Carries False (Option.Rel P.OnTree) (Parser.accessor n object)
      (Parser.accessor n' (P.relabel.tree object)) := by
  refine .onKind (fun k => ?_) fun _ => .pure .none
  split
  · refine (TakesFrom.advanceRest (by nofun) fun dot _ => ?_).carries
    refine TakesFrom.expectName.carries.bind ?_
    rintro name _ ⟨rfl, -⟩
    exact .mapSome .dottedAccess
  · refine (TakesFrom.advanceRest (by nofun) fun dot _ => ?_).carries
    refine (accept (by nofun) (by nofun)).bind ?_
    rintro (_ | openSquare) _ ⟨rfl, -⟩
    · refine TakesFrom.expectName.carries.bind ?_
      rintro name _ ⟨rfl, -⟩
      exact .mapSome .dottedAccess
    · exact .mapSome (TakesFrom.indexRest hn).carries
  · exact (TakesFrom.advanceRest (by nofun) fun _ _ =>
      .mapSome (TakesFrom.indexRest hn).carries).carries
  · exact (TakesFrom.advanceRest (by nofun) fun _ _ =>
      .mapSome (TakesFrom.indexRest hn).carries).carries
  · refine (TakesFrom.advanceRest (by nofun) fun _ _ => ?_).carries
    refine (TakesFrom.arguments hn).carries.bind ?_
    rintro ⟨values, close⟩ _ rfl
    exact .mapSome (.node rfl (by simp) rfl)
  · refine (TakesFrom.advanceRest (by nofun) fun operator _ => ?_).carries
    refine TakesFrom.expectName.carries.bind ?_
    rintro method _ ⟨rfl, -⟩
    refine (TakesFrom.expect (by nofun)).carries.bind fun _ _ _ => ?_
    refine (TakesFrom.arguments hn).carries.bind ?_
    rintro ⟨values, close⟩ _ rfl
    exact .mapSome (.node rfl (by simp) rfl)
  · exact .pure .none

lemma TakesFrom.accessed (hn : P.OnNested n n') :
    P.Takes P.OnTree (Parser.accessed n) (Parser.accessed n') := by
  refine (primary hn).bind ?_
  rintro first _ rfl
  refine .iterate ?_ rfl
  rintro object _ rfl
  exact .accessor hn

lemma TakesFrom.expression (hn : P.OnNested n n') :
    P.Takes P.OnTree (Parser.expression n) (Parser.expression n') := by
  have hsigned : P.Takes P.OnTree (signed n) (signed n') := unaryLayer rfl (accessed hn)
  have hsum : P.Takes P.OnTree (sum n) (sum n') :=
    binaryLayer rfl rfl (binaryLayer rfl rfl (binaryLayer rfl rfl hsigned))
  have hcomparison : P.Takes P.OnTree (comparison n) (comparison n') :=
    binaryLayer rfl rfl (binaryLayer rfl rfl hsum)
  exact binaryLayer rfl rfl (binaryLayer rfl rfl (unaryLayer rfl hcomparison))

end BrighterCheck.Passage
