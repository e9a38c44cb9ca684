import BrighterCheck.Proofs.Parser.Passage.Conditional
import BrighterCheck.Proofs.Parser.Passage.Declaration
import BrighterCheck.Parser.Statement

/-!
# Statements in both sources

A statement can be the last thing of a source: where something may be left out in front of the end,
it may be left out in front of a line end too.
-/

namespace BrighterCheck.Passage

open BrighterCheck.Parser

variable {P : Passage} {n n' : Nested} {lax : Prop} {k : TokenKind}

lemma TakesFrom.single {make : Token → Form NumberedTree} (hk : k ≠ .eof)
    (hm : ∀ t, (make (P.relabel.token t)).kind = P.relabel.kind (make t).kind)
    (hc : ∀ t, (make t).children = []) :
    P.TakesAt k P.OnTree (Parser.single make) (Parser.single make) :=
  advanceLeaf hk hm hc

lemma TakesFrom.withOptionalToken {wanted : TokenKind → Bool}
    {make : Token → Option Token → Form NumberedTree} (hk : k ≠ .eof) (he : wanted .eof = false)
    (hn : wanted .newline = false)
    (hm : ∀ t o, (make (P.relabel.token t) (o.map P.relabel.token)).kind =
      P.relabel.kind (make t o).kind) (hc : ∀ t o, (make t o).children = []) :
    P.TakesAt k P.OnTree (Parser.withOptionalToken wanted make)
      (Parser.withOptionalToken wanted make) := by
  refine advanceRest hk fun keyword _ => ?_
  refine (CarriesFrom.acceptIf he (by simp [hn])).bind ?_
  rintro extra _ ⟨rfl, -⟩
  exact .node (hm keyword extra) (by simp) (by simp [hc])

/-- References are noted behind those that stand before the source. -/
lemma CarriesFrom.noteReference {change change' : References → References}
    (hl : ∀ refs refs', refs'.libraries = P.base.libraries ++
        (P.relabel.references refs).libraries → (change' refs').libraries = P.base.libraries ++
        (P.relabel.references (change refs)).libraries)
    (hi : ∀ refs refs', refs'.imports = P.base.imports ++
        (P.relabel.references refs).imports → (change' refs').imports = P.base.imports ++
        (P.relabel.references (change refs)).imports) :
    P.Carries lax (fun _ _ => True) (Parser.noteReference change)
      (Parser.noteReference change') where
  leads _ hm := by
    cases hm
    exact ⟨⟨rfl, List.suffix_refl _⟩, (), trivial⟩
  ok {s s' _ _} _ hs hm := by
    cases hm
    refine .inr ⟨(), { s' with references := change' s'.references }, rfl, trivial, ?_⟩
    exact ⟨hs.kind_eof, hs.kinds, hs.tokens_eq, hs.eof_eq, hs.next_eq, hl _ _ hs.libraries_eq,
      hi _ _ hs.imports_eq⟩
  error _ _ _ hm := nomatch hm

lemma TakesFrom.library (hk : k ≠ .eof) :
    P.TakesAt k P.OnTree Parser.library Parser.library := by
  refine (withOptionalToken hk rfl rfl (fun _ _ => rfl) fun _ _ => rfl).bind ?_
  rintro directive _ rfl
  refine (CarriesFrom.noteReference ?_ ?_).bind fun _ _ _ => .pure rfl
  · intro refs refs' h
    simp [References.addLibrary, Relabel.references, h]
  · intro refs refs' h
    simpa [References.addLibrary, Relabel.references] using h

lemma TakesFrom.importStatement (hk : k ≠ .eof) :
    P.TakesAt k P.OnTree Parser.importStatement Parser.importStatement := by
  refine (withOptionalToken hk rfl rfl (fun _ _ => rfl) fun _ _ => rfl).bind ?_
  rintro directive _ rfl
  refine (CarriesFrom.noteReference ?_ ?_).bind fun _ _ _ => .pure rfl
  · intro refs refs' h
    simpa [References.addImport, Relabel.references] using h
  · intro refs refs' h
    simp [References.addImport, Relabel.references, h]

/-- An expression can be left out in front of the end and of a line end alike. -/
lemma CarriesFrom.optionalExpression (hn : P.OnNested n n') :
    P.Carries lax (fun o o' => o' = o.map P.relabel.tree) (Parser.optionalExpression n)
      (Parser.optionalExpression n') := by
  refine .onTest rfl (.pure rfl) (hn.expression.carries.map ?_)
  rintro t _ rfl
  rfl

lemma TakesFrom.returnStatement (hn : P.OnNested n n') (hk : k ≠ .eof) :
    P.TakesAt k P.OnTree (Parser.returnStatement n) (Parser.returnStatement n') := by
  refine advanceRest hk fun keyword _ => ?_
  refine (CarriesFrom.optionalExpression hn).bind ?_
  rintro value _ rfl
  refine .node rfl ?_ ?_
  · cases value <;> simp
  · cases value <;> rfl

lemma TakesFrom.throwStatement (hn : P.OnNested n n') (hk : k ≠ .eof) :
    P.TakesAt k P.OnTree (Parser.throwStatement n) (Parser.throwStatement n') := by
  refine advanceRest hk fun keyword _ => ?_
  refine hn.expression.carries.bind ?_
  rintro value _ rfl
  exact .node rfl (by simp) rfl

lemma TakesFrom.printStatement (hn : P.OnNested n n') (hk : k ≠ .eof) :
    P.TakesAt k P.OnTree (Parser.printStatement n) (Parser.printStatement n') := by
  refine advanceRest hk fun keyword _ => ?_
  refine CarriesFrom.bind (R := P.OnTrees) (.many ?_) ?_
  · exact (CarriesFrom.skip rfl nofun).bind fun _ _ _ => .optionalExpression hn
  · rintro values _ rfl
    exact .node rfl (by simp) rfl

lemma TakesFrom.dimStatement (hn : P.OnNested n n') (hk : k ≠ .eof) :
    P.TakesAt k P.OnTree (Parser.dimStatement n) (Parser.dimStatement n') := by
  refine advanceRest hk fun keyword _ => ?_
  refine expectIdentifier.carries.bind ?_
  rintro name _ ⟨rfl, -⟩
  refine (expect (by nofun)).carries.bind fun _ _ _ => ?_
  refine (CarriesFrom.commaList rfl (.pure trivial) hn.expression.carries).bind ?_
  rintro dimensions _ rfl
  refine (expect (by nofun)).carries.bind ?_
  rintro close _ ⟨rfl, -⟩
  exact .node rfl (by simp) rfl

lemma TakesFrom.whileLoop (hn : P.OnNested n n') (hk : k ≠ .eof) :
    P.TakesAt k P.OnTree (Parser.whileLoop n) (Parser.whileLoop n') := by
  refine advanceRest hk fun keyword _ => carries ?_
  refine .after hn.expression.carries ?_
  rintro condition _ rfl
  refine .after (.block hn (isBlind_block _)) ?_
  rintro body _ rfl
  refine expectEnd.bind ?_
  rintro finish _ rfl
  exact .node rfl (by simp) rfl

lemma TakesFrom.expectForEnd :
    P.Takes (fun r r' => r' = P.relabel.range r) Parser.expectForEnd Parser.expectForEnd := by
  refine acceptIf rfl (fun next _ => ?_) fun _ _ => expectEnd.ofAny
  refine (CarriesFrom.accept (by nofun) (by nofun)).bind ?_
  rintro counter _ ⟨rfl, -⟩
  refine .pure ?_
  cases counter <;> simp

lemma TakesFrom.forEachRest {keyword keyword' : Token} (hn : P.OnNested n n')
    (hk : keyword' = P.relabel.token keyword) :
    P.Takes P.OnTree (Parser.forEachRest n keyword) (Parser.forEachRest n' keyword') := by
  subst hk
  refine .after expectIdentifier.carries ?_
  rintro item _ ⟨rfl, -⟩
  refine .after (expect (by nofun)).carries fun _ _ _ => ?_
  refine .after hn.expression.carries ?_
  rintro target _ rfl
  refine .after (.block hn isBlind_forBlock) ?_
  rintro body _ rfl
  refine expectForEnd.bind ?_
  rintro finish _ rfl
  exact .node rfl (by simp) rfl

lemma TakesFrom.forRest {keyword : Token} (hn : P.OnNested n n') :
    P.Takes P.OnTree (Parser.forRest n keyword)
      (Parser.forRest n' (P.relabel.token keyword)) := by
  refine .after expectIdentifier.carries ?_
  rintro name _ ⟨rfl, -⟩
  refine .after (expect (by nofun)).carries ?_
  rintro operator _ ⟨rfl, -⟩
  refine .after hn.expression.carries ?_
  rintro start _ rfl
  refine .after (R := P.OnTree) (.node rfl (by simp) rfl) ?_
  rintro counter _ rfl
  refine .after (expect (by nofun)).carries fun _ _ _ => ?_
  refine .after hn.expression.carries ?_
  rintro final _ rfl
  refine .after (.after (by nofun) (by nofun) hn.expression.carries) ?_
  rintro step _ rfl
  refine .after (.block hn isBlind_forBlock) ?_
  rintro body _ rfl
  refine expectForEnd.bind ?_
  rintro finish _ rfl
  refine .node rfl (by simp) ?_
  cases step <;> rfl

lemma TakesFrom.forLoop (hn : P.OnNested n n') :
    P.TakesAt (.keyword .forKw) P.OnTree (Parser.forLoop n) (Parser.forLoop n') := by
  refine advanceRest (by nofun) fun keyword hk => ?_
  refine (CarriesFrom.accept (by nofun) (by nofun)).bind ?_
  rintro (_ | each) _ ⟨rfl, he⟩
  · exact (forRest hn).carries
  · exact (forEachRest hn (P.relabel.token_forEach hk (he each rfl)).symm).carries

lemma CarriesFrom.optionalCatch (hn : P.OnNested n n') :
    P.Carries True (fun o o' => o' = o.map P.relabel.tree) (Parser.optionalCatch n)
      (Parser.optionalCatch n') := by
  refine (accept (by nofun) (by nofun)).bind ?_
  rintro (_ | keyword) _ ⟨rfl, -⟩
  · exact .pure rfl
  · refine CarriesFrom.map (R := P.OnTree) ?_ ?_
    · refine (accept (by nofun) (by nofun)).bind ?_
      rintro exception _ ⟨rfl, -⟩
      refine (block hn (isBlind_block _)).bind ?_
      rintro body _ rfl
      exact .node rfl (by simp) rfl
    · rintro t _ rfl
      rfl

lemma TakesFrom.tryStatement (hn : P.OnNested n n') (hk : k ≠ .eof) :
    P.TakesAt k P.OnTree (Parser.tryStatement n) (Parser.tryStatement n') := by
  refine advanceRest hk fun keyword _ => carries ?_
  refine .after (.block hn ((isBlind_block .tryKw).orAt (.keyword .catchKw))) ?_
  rintro body _ rfl
  refine .after (CarriesFrom.optionalCatch hn) ?_
  rintro clause _ rfl
  refine expectEnd.bind ?_
  rintro finish _ rfl
  refine .node rfl (by simp) ?_
  cases clause <;> rfl

lemma TakesFrom.typecast (hn : P.OnNested n n') (hk : k ≠ .eof) :
    P.TakesAt k P.OnTree (Parser.typecast n) (Parser.typecast n') := by
  refine advanceRest hk fun keyword _ => ?_
  refine hn.expression.carries.bind ?_
  rintro value _ rfl
  refine (expect (by nofun)).carries.bind fun _ _ _ => ?_
  refine typeName.carries.bind ?_
  rintro type _ ⟨rfl, -⟩
  exact .node rfl (by simp) rfl

/-- A relabelled target becomes the relabelled assignment. -/
lemma assignment?_relabel {target value : NumberedTree} {op : Token} :
    assignment? (P.relabel.tree target) (P.relabel.token op) (P.relabel.tree value) =
      (assignment? target op value).map P.relabel.tree := by
  obtain ⟨id, kind, range, children⟩ := target
  cases kind <;> simp [assignment?, Relabel.tree_mk, Relabel.kind]

lemma TakesFrom.expressionStatement (hn : P.OnNested n n') :
    P.Takes P.OnTree (Parser.expressionStatement n) (Parser.expressionStatement n') := by
  refine (accessed hn).bind ?_
  rintro target _ rfl
  refine (CarriesFrom.acceptIf rfl nofun).bind ?_
  rintro (_ | operator) _ ⟨rfl, -⟩
  · refine (CarriesFrom.acceptIf rfl nofun).bind ?_
    rintro (_ | operator) _ ⟨rfl, -⟩
    · exact .node rfl (by simp) rfl
    · exact .node rfl (by simp) rfl
  · refine hn.expression.carries.bind ?_
    rintro value _ rfl
    simp only [assignment?_relabel]
    cases assignment? target operator value with
    | none =>
      refine (refuseAt rfl ?_).carries
      cases h : target.range <;> simp [h]
    | some statement =>
      refine (CarriesFrom.changeStore (fun _ => Store.size_assign ..) fun _ =>
        Store.size_assign ..).bind ?_
      intro _ _ _
      exact .pure rfl

lemma TakesFrom.strayEnd {word : Keyword} {I : Reading → Prop}
    (hI : ∀ s, I s → s.current.kind = .keyword word) :
    P.TakesFrom I P.OnTree Parser.strayEnd Parser.strayEnd := by
  refine refuse fun s hs => ?_
  have htext := P.relabel.text_name s.current.kind s.current.text (by rw [hI s hs]; rfl)
  simp [Relabel.token, Relabel.fault, htext]

lemma TakesFrom.keywordStatement {word : Keyword} (hn : P.OnNested n n') :
    P.TakesAt (.keyword word) P.OnTree (Parser.keywordStatement n word)
      (Parser.keywordStatement n' word) := by
  have hexpression {I : Reading → Prop} : P.TakesFrom I P.OnTree (Parser.expressionStatement n)
      (Parser.expressionStatement n') := (expressionStatement hn).ofAny
  have hfunction {word : Keyword} : P.TakesAt (.keyword word) P.OnTree
      (followingKind >>= fun next => if next = .identifier then Parser.functionDeclaration n
        else Parser.expressionStatement n)
      (followingKind >>= fun next => if next = .identifier then Parser.functionDeclaration n'
        else Parser.expressionStatement n') := by
    refine .onFollowing nofun (fun next => .ite (fun _ => ?_) fun _ => hexpression) ?_
    · exact (functionDeclaration (k := .keyword word) hn nofun).restrict fun _ h => h.1
    · exact hexpression.carries
  unfold Parser.keywordStatement
  split
  · exact hfunction
  · exact hfunction
  · exact namespaceDeclaration hn nofun
  · exact classDeclaration hn nofun
  · exact interfaceDeclaration nofun
  · exact enumDeclaration hn nofun
  · exact namedValue hn nofun (fun _ _ _ => rfl) fun _ _ _ => rfl
  · exact importStatement nofun
  · exact library nofun
  · exact ifStatement hn
  · exact whileLoop hn nofun
  · exact forLoop hn
  · exact withOptionalToken nofun rfl rfl (fun _ _ => rfl) fun _ _ => rfl
  · exact withOptionalToken nofun rfl rfl (fun _ _ => rfl) fun _ _ => rfl
  · exact returnStatement hn nofun
  · exact dimStatement hn nofun
  · exact tryStatement hn nofun
  · exact throwStatement hn nofun
  · exact printStatement hn nofun
  · exact single nofun (fun _ => rfl) fun _ => rfl
  · exact typecast hn nofun
  · exact namedValue hn nofun (fun _ _ _ => rfl) fun _ _ _ => rfl
  · have hend : P.TakesAt (.keyword .endKw) P.OnTree (Parser.single .endStatement)
        (Parser.single .endStatement) := single nofun (fun _ => rfl) fun _ => rfl
    refine .onFollowing nofun (fun next => .ite (fun _ => ?_) fun _ => ?_) ?_
    · exact hend.restrict fun _ h => h.1
    · exact strayEnd fun _ h => h.1
    · exact hend.carries
  · exact strayEnd fun _ h => h
  · exact strayEnd fun _ h => h
  · exact strayEnd fun _ h => h
  · exact strayEnd fun _ h => h
  · exact strayEnd fun _ h => h
  · exact strayEnd fun _ h => h
  · exact strayEnd fun _ h => h
  · exact strayEnd fun _ h => h
  · exact hexpression

lemma TakesFrom.statement (hn : P.OnNested n n') :
    P.Takes P.OnTree (Parser.statement n) (Parser.statement n') := by
  refine onKind fun k => ?_
  split
  · exact comment
  · exact keywordStatement hn
  · exact printStatement hn nofun
  · exact namedValue hn nofun (fun _ _ _ => rfl) fun _ _ _ => rfl
  · exact conditionalBlock hn
  · exact single nofun (fun _ => rfl) fun _ => rfl
  · exact (expressionStatement hn).ofAny

end BrighterCheck.Passage
