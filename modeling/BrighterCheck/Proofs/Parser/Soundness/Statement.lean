import BrighterCheck.Proofs.Parser.Soundness.Conditional
import BrighterCheck.Proofs.Parser.Soundness.Declaration
import BrighterCheck.Proofs.Parser.Soundness.Expression
import BrighterCheck.Proofs.Text.Range

/-!
# Soundness of statements

Every statement that the parser reads was made by a production, or is an assignment or a
conditional, which are made of nodes that were read as something else.
-/

namespace BrighterCheck.Parser

open Item

variable {n : Nested} {k : TokenKind}

lemma ParsesAt.single {make : Token → Form NumberedTree} {kinds : Token → NodeKind}
    (hm : Single kinds k) (hform : ∀ t, (make t).Has (kinds t) []) :
    CompletesAt k [] .statement (Parser.single make) := by
  have hk : k ≠ .eof := by cases hm <;> nofun
  refine .advance hk fun t ht => ?_
  obtain ⟨hkind, hchildren⟩ := hform t
  have hp := Production.single hm ht
  rw [← hkind] at hp
  refine .node hp rfl hchildren.symm ?_
  rw [hkind]
  cases hm <;> rfl

/-- A keyword with an optional token behind it, before anything is noted about its node. -/
lemma withOptionalToken_eq_ok {wanted : TokenKind → Bool}
    {make : Token → Option Token → Form NumberedTree} {kinds : Token → Option Token → NodeKind}
    {word : Keyword} {s s' : Reading} {t : NumberedTree} (hm : Extended kinds word wanted)
    (hform : ∀ keyword extra, (make keyword extra).Has (kinds keyword extra) [])
    (he : s.IsLexed) (hk : s.current.kind = .keyword word)
    (h : withOptionalToken wanted make s = .ok t s') :
    ∃ keyword extra items u range, Reads s items u ∧
      Production .statement (kinds keyword extra) range items ∧
      (make keyword extra).Has (kinds keyword extra) (nodes items) ∧
      t = ⟨u.next, kinds keyword extra, range, nodes items⟩ ∧
      s' = { u with store := u.store.alloc ((make keyword extra).map Tree.id) range } := by
  have hw : wanted .eof = false := by cases hm <;> rfl
  obtain ⟨keyword, v, hv, h⟩ := bind_eq_ok.1 h
  obtain ⟨extra, w, hextra, h⟩ := bind_eq_ok.1 h
  obtain ⟨rfl, rfl⟩ := node_eq_ok.1 h
  obtain ⟨hr, rfl⟩ := reads_advance he.kind_eof (by rw [hk]; nofun) hv
  obtain ⟨_, hr', rfl, hx⟩ := Parses.acceptIf hw (hr.isLexed he) (.nil v) hextra
  obtain ⟨hkind, hchildren⟩ := hform s.current extra
  have hnodes : nodes ([.token s.current] ++ tokens extra.toList) = [] := by simp
  rw [hkind, hchildren, ← hnodes]
  exact ⟨_, extra, _, w, _, hr.append hr', .extended hm hk hx, ⟨hkind, hchildren.trans hnodes.symm⟩,
    rfl, rfl⟩

lemma ParsesAt.exitLoop :
    CompletesAt (.keyword .exitKw) [] .statement
      (Parser.withOptionalToken isLoopWord .exitLoop) := by
  intro s₀ s t s' he hs hk h
  cases hs
  obtain ⟨keyword, extra, items, u, range, hr, hp, hform, rfl, rfl⟩ :=
    withOptionalToken_eq_ok .exitLoop (fun _ _ => ⟨rfl, rfl⟩) he hk h
  exact ⟨_, hr.wrap hp hform, rfl⟩

lemma ParsesAt.continueLoop :
    CompletesAt (.keyword .continueKw) [] .statement
      (Parser.withOptionalToken isLoopWord .continueLoop) := by
  intro s₀ s t s' he hs hk h
  cases hs
  obtain ⟨keyword, extra, items, u, range, hr, hp, hform, rfl, rfl⟩ :=
    withOptionalToken_eq_ok .continueLoop (fun _ _ => ⟨rfl, rfl⟩) he hk h
  exact ⟨_, hr.wrap hp hform, rfl⟩

/-- The number of a library is noted when its node is made. -/
lemma ParsesAt.library : CompletesAt (.keyword .libraryKw) [] .statement Parser.library := by
  intro s₀ s t s' he hs hk h
  cases hs
  obtain ⟨d, v, hd, h⟩ := bind_eq_ok.1 h
  obtain ⟨keyword, extra, items, u, range, hr, hp, hform, rfl, rfl⟩ :=
    withOptionalToken_eq_ok .library (fun _ _ => ⟨rfl, rfl⟩) he hk hd
  cases h
  exact ⟨_, hr.wrap hp hform, rfl⟩

/-- The number of an import is noted when its node is made. -/
lemma ParsesAt.importStatement :
    CompletesAt (.keyword .importKw) [] .statement Parser.importStatement := by
  intro s₀ s t s' he hs hk h
  cases hs
  obtain ⟨d, v, hd, h⟩ := bind_eq_ok.1 h
  obtain ⟨keyword, extra, items, u, range, hr, hp, hform, rfl, rfl⟩ :=
    withOptionalToken_eq_ok .importStatement (fun _ _ => ⟨rfl, rfl⟩) he hk hd
  cases h
  exact ⟨_, hr.wrap hp hform, rfl⟩

/-- An expression that may be left out. -/
lemma Parses.optionalExpression (hn : n.Sound) :
    Parses [] (Parser.optionalExpression n) fun o items =>
      items = o.toList.map (.node .expression) := by
  refine .bind .kind ?_
  rintro k _ rfl
  refine .ite (fun _ => .pure rfl) fun _ => .map hn.expression ?_
  rintro value _ rfl
  rfl

lemma ParsesAt.returnStatement (hn : n.Sound) :
    CompletesAt (.keyword .returnKw) [] .statement (Parser.returnStatement n) := by
  refine .advance (by nofun) fun keyword hk => .bind (.optionalExpression hn) ?_
  rintro value _ rfl
  exact .node (.returnStatement hk) rfl (by simp [Form.children]) rfl

lemma ParsesAt.throwStatement (hn : n.Sound) :
    CompletesAt (.keyword .throwKw) [] .statement (Parser.throwStatement n) := by
  refine .advance (by nofun) fun keyword hk => .bind hn.expression ?_
  rintro value _ rfl
  exact .node (.throwStatement hk) rfl rfl rfl

lemma ParsesAt.printStatement (hn : n.Sound)
    (hk : k = .keyword .printKw ∨ k = .punctuator .question) :
    CompletesAt k [] .statement (Parser.printStatement n) := by
  have he : k ≠ .eof := by rcases hk with rfl | rfl <;> nofun
  refine .advance he fun keyword hkeyword => ?_
  refine .bind (P := Lists .expression isPrintSeparator) (.many
    (E := fun o => Lists .expression isPrintSeparator o.toList) ?_ ⟨listed_nil, rfl⟩
    fun _ _ _ _ => Lists.append) ?_
  · refine .bind (.skip rfl) ?_
    rintro _ _ ⟨ts, rfl, hts⟩
    refine .frame (.optionalExpression hn) ?_
    rintro o _ rfl
    refine ⟨listed_append (listed_tokens hts) ?_, by simp⟩
    cases o with
    | none => exact listed_nil
    | some value => exact listed_node
  · rintro values items ⟨hl, rfl⟩
    exact .node (.print (hkeyword ▸ hk) hl) rfl rfl rfl

lemma ParsesAt.dimStatement (hn : n.Sound) :
    CompletesAt (.keyword .dimKw) [] .statement (Parser.dimStatement n) := by
  refine .advance (by nofun) fun keyword hk => .bind .expectIdentifier ?_
  rintro name _ ⟨rfl, hname⟩
  refine .bind (.expect (by nofun)) ?_
  rintro opening _ ⟨rfl, ho⟩
  refine .bind (.commaNodes .noBlanks hn.expression) ?_
  rintro dimensions items ⟨hl, rfl⟩
  refine .bind (.expect (by nofun)) ?_
  rintro close _ ⟨rfl, hc⟩
  exact .node (.dim hk hname ho hl hc) (by simp) (by simp [Form.children]) rfl

lemma ParsesAt.whileLoop (hn : n.Sound) :
    CompletesAt (.keyword .whileKw) [] .statement (Parser.whileLoop n) := by
  refine .advance (by nofun) fun keyword hk => .bind hn.expression ?_
  rintro condition _ rfl
  refine .bind (.block hn) ?_
  rintro body _ rfl
  refine .bind .expectEnd ?_
  rintro r _ ⟨ends, rfl, he⟩
  exact .node (.whileLoop hk he) rfl (by simp [Form.children]) rfl

/-- The words that end a `for` block. -/
lemma Parses.expectForEnd :
    Parses [] Parser.expectForEnd fun r items =>
      ∃ ends, items = tokens ends ∧ Finish .forBlock ends r := by
  refine .bind (.accept (by nofun)) ?_
  rintro (_ | next) _ ⟨rfl, hnext⟩
  · refine Parses.expectEnd.mono ?_
    rintro r _ ⟨ends, rfl, he⟩
    refine ⟨ends, rfl, ?_⟩
    cases he with
    | one h => exact .one fun k => by simp [Ending.forBlock, h k]
    | two h => exact .two (by simp [Ending.forBlock, h])
  · have hend : ∀ k, Ending.forBlock next.kind k = true := by
      simp [Ending.forBlock, hnext next rfl]
    refine .bind (.accept (by nofun)) ?_
    rintro (_ | counter) _ ⟨rfl, hc⟩
    · refine .pure ⟨[next], rfl, ?_⟩
      rw [Option.map_none, Option.getD_none, Range.merge_self]
      exact .one hend
    · exact .pure ⟨[next, counter], rfl, .two (hend _)⟩

lemma Parses.forEachRest {keyword : Token} (hn : n.Sound) (hk : keyword.kind = .forEach) :
    Completes [.token keyword] .statement (Parser.forEachRest n keyword) := by
  refine .bind .expectIdentifier ?_
  rintro item _ ⟨rfl, hi⟩
  refine .bind (.expect (by nofun)) ?_
  rintro mark _ ⟨rfl, hm⟩
  refine .bind hn.expression ?_
  rintro target _ rfl
  refine .bind (.block hn) ?_
  rintro body _ rfl
  refine .bind .expectForEnd ?_
  rintro r _ ⟨ends, rfl, he⟩
  exact .node (.forEachLoop hk hi hm he) rfl (by simp [Form.children]) rfl

lemma Parses.forRest {keyword : Token} (hn : n.Sound) (hk : keyword.kind = .keyword .forKw) :
    Completes [.token keyword] .statement (Parser.forRest n keyword) := by
  refine .bind .expectIdentifier ?_
  rintro name _ ⟨rfl, hname⟩
  refine .bind (.expect (by nofun)) ?_
  rintro op _ ⟨rfl, ho⟩
  refine .bind hn.expression ?_
  rintro start _ rfl
  refine .within [.token keyword] (.node (.counter hname ho) rfl rfl rfl) ?_
  rintro counter _ rfl
  refine .bind (.expect (by nofun)) ?_
  rintro mark _ ⟨rfl, hm⟩
  refine .bind hn.expression ?_
  rintro final _ rfl
  refine .bind (.valued (by nofun) hn) fun step steps hs => ?_
  refine .bind (.block hn) ?_
  rintro body _ rfl
  refine .bind .expectForEnd ?_
  rintro r _ ⟨ends, rfl, he⟩
  refine .node (.forLoop (i := counter) (f := final) (b := body) hk hm hs he) (by simp) ?_ rfl
  cases hs <;> simp [Form.children]

/-- The two keywords of a `for each` loop are read as one token. -/
lemma ParsesAt.forLoop (hn : n.Sound) :
    CompletesAt (.keyword .forKw) [] .statement (Parser.forLoop n) := by
  intro s₀ s t s' he hs hk h
  cases hs
  obtain ⟨first, u, hf, h⟩ := bind_eq_ok.1 h
  obtain ⟨rfl, hft, hu⟩ := advance_eq_ok (by rw [hk, he.kind_eof]; nofun) hf
  obtain ⟨o, v, ho, h⟩ := bind_eq_ok.1 h
  have hue : u.eof.kind = .eof := by rw [hu]; exact he.kind_eof
  rcases acceptIf_eq_ok (hue ▸ rfl) ho with ⟨rfl, -, rfl⟩ | ⟨each, rfl, -, heach, het, hv⟩
  · obtain ⟨hr, -⟩ := reads_advance he.kind_eof (by rw [hk]; nofun) hf
    exact Parses.forRest hn hk he hr h
  · have hr : Reads s₀ [.token (.join .forEach " " s₀.current each)] v := by
      refine .token (.forEach hk (of_decide_eq_true heach))
        (show s₀.tokens = [s₀.current, each] ++ v.tokens by rw [hft, het]; rfl) ?_
      rw [hv, hu]
      exact .nil _
    exact Parses.forEachRest hn rfl he hr h

lemma Parses.catchRest {keyword : Token} (hn : n.Sound) (hk : keyword.kind = .keyword .catchKw) :
    Completes [.token keyword] .clause (Parser.catchRest n keyword) := by
  refine .bind (.accept (by nofun)) ?_
  rintro exception _ ⟨rfl, he⟩
  refine .bind (.block hn) ?_
  rintro body _ rfl
  exact .node (.catchClause hk he) (by simp) (by simp [Form.children]) rfl

lemma Parses.optionalCatch (hn : n.Sound) :
    Parses [] (Parser.optionalCatch n) fun o items => items = o.toList.map (.node .clause) := by
  refine .bind (.accept (by nofun)) ?_
  rintro (_ | keyword) _ ⟨rfl, hk⟩
  · exact .pure rfl
  · refine .map (.catchRest hn (hk keyword rfl)) ?_
    rintro clause _ rfl
    rfl

lemma ParsesAt.tryStatement (hn : n.Sound) :
    CompletesAt (.keyword .tryKw) [] .statement (Parser.tryStatement n) := by
  refine .advance (by nofun) fun keyword hk => .bind (.block hn) ?_
  rintro body _ rfl
  refine .bind (.optionalCatch hn) ?_
  rintro clause _ rfl
  refine .bind .expectEnd ?_
  rintro r _ ⟨ends, rfl, he⟩
  exact .node (.tryStatement (b := body) (c := clause) hk he) (by simp)
    (by simp [Form.children]) rfl

lemma ParsesAt.typecast (hn : n.Sound) :
    CompletesAt (.keyword .typecastKw) [] .statement (Parser.typecast n) := by
  refine .advance (by nofun) fun keyword hk => .bind hn.expression ?_
  rintro value _ rfl
  refine .bind (.expect (by nofun)) ?_
  rintro mark _ ⟨rfl, hm⟩
  refine .bind .typeName ?_
  rintro type _ ⟨rfl, ht⟩
  exact .node (.typecast hk hm ht) rfl rfl rfl

/-- A target with its operator and its value becomes an assignment in place of the target. -/
lemma Parses.assignment {target value t : NumberedTree} {op : Token}
    (ho : isAssignment op.kind = true) (ha : assignment? target op value = some t) :
    Completes [.node .expression target, .token op, .node .expression value] .statement (do
      changeStore (·.assign target.id op value.id t.range)
      return t) := by
  intro s₀ s _ s' _ hs h
  cases h
  rw [← List.singleton_append] at hs
  obtain ⟨u, ht, hv⟩ := hs.split
  exact ⟨_, .assignment ht ho hv ha (.nil _), rfl⟩

lemma Parses.expressionStatement (hn : n.Sound) :
    Completes [] .statement (Parser.expressionStatement n) := by
  refine .bind (.accessed hn) ?_
  rintro target _ rfl
  refine .bind (.acceptIf rfl) ?_
  rintro (_ | op) _ ⟨rfl, ho⟩
  · refine .bind (.acceptIf rfl) ?_
    rintro (_ | op) _ ⟨rfl, ho⟩
    · exact .node .expressionStatement rfl rfl rfl
    · exact .node (.increment (ho op rfl)) rfl rfl rfl
  · refine .bind hn.expression ?_
    rintro value _ rfl
    cases ha : assignment? target op value with
    | none => exact .refuseAt
    | some t => exact .assignment (ho op rfl) ha

lemma ParsesAt.keywordStatement {word : Keyword} (hn : n.Sound) :
    CompletesAt (.keyword word) [] .statement (Parser.keywordStatement n word) := by
  have expression : ∀ word, CompletesAt (.keyword word) [] .statement
      (Parser.expressionStatement n) := fun _ => Parses.at (.expressionStatement hn)
  unfold Parser.keywordStatement
  split
  · refine .onFollowing fun _ => .ite (fun _ => ?_) fun _ => expression _
    exact .functionDeclaration hn rfl (by nofun)
  · refine .onFollowing fun _ => .ite (fun _ => ?_) fun _ => expression _
    exact .functionDeclaration hn rfl (by nofun)
  · exact .namespaceDeclaration hn
  · exact .classDeclaration hn
  · exact .interfaceDeclaration
  · exact .enumDeclaration hn
  · exact .namedValue hn .const fun _ _ _ => ⟨rfl, rfl⟩
  · exact .importStatement
  · exact .library
  · exact .ifStatement hn
  · exact .whileLoop hn
  · exact .forLoop hn
  · exact .exitLoop
  · exact .continueLoop
  · exact .returnStatement hn
  · exact .dimStatement hn
  · exact .tryStatement hn
  · exact .throwStatement hn
  · exact .printStatement hn (.inl rfl)
  · exact .single .stop fun _ => ⟨rfl, rfl⟩
  · exact .typecast hn
  · exact .namedValue hn .alias fun _ _ _ => ⟨rfl, rfl⟩
  · exact .onFollowing fun _ =>
      .ite (fun _ => .single .finish fun _ => ⟨rfl, rfl⟩) fun _ => Parses.at .refuse
  -- The words that end a block are refused, and what is left starts an expression.
  all_goals first
    | exact Parses.at .refuse
    | exact expression _

/-- Statements are sound if the productions inside them are. -/
lemma Parses.statement (hn : n.Sound) : Completes [] .statement (Parser.statement n) := by
  refine .onKind fun k => ?_
  split
  · exact .comment (.inl rfl)
  · exact .keywordStatement hn
  · exact .printStatement hn (.inr rfl)
  · exact .namedValue hn .conditional fun _ _ _ => ⟨rfl, rfl⟩
  · exact .conditionalBlock hn
  · exact .single .error fun _ => ⟨rfl, rfl⟩
  · exact Parses.at (.expressionStatement hn)

end BrighterCheck.Parser
