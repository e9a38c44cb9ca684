import BrighterCheck.Proofs.Parser.Soundness.Block

/-!
# Soundness of expressions

Operators, primary expressions and accessors read what the productions of expressions list.
-/

namespace BrighterCheck.Parser

open Item

variable {n : Nested} {before : List Item}

/-- Operands with operators between them become one node, however many there are. -/
lemma Parses.binaryLayer {p : TokenKind → Bool} {operand : Parser NumberedTree}
    (hop : ∀ k, p k = true → isBinaryOperator k = true)
    (ho : Completes [] .expression operand) :
    Completes [] .expression (Parser.binaryLayer p operand) := by
  refine .bind ho ?_
  rintro first _ rfl
  refine .grow (fun left => ?_) first
  refine .bind (.acceptIf ?_) ?_
  · cases h : p .eof with
    | false => rfl
    | true => exact absurd (hop _ h) (by decide)
  · rintro (_ | op) _ ⟨rfl, hk⟩
    · exact .pure rfl
    · refine .bind ho ?_
      rintro right _ rfl
      exact .grown (.node (.binary (hop _ (hk op rfl))) rfl rfl rfl)

/-- The operators in front of an operand are applied from the innermost one on. -/
lemma Parses.foldUnary {ops : List Token} {v : NumberedTree}
    (ho : ∀ t ∈ ops, isPrefixOperator t.kind = true) :
    Completes (tokens ops ++ [.node .expression v]) .expression
      (ops.foldrM Parser.unaryNode v) := by
  induction ops with
  | nil => exact .pure rfl
  | cons op ops ih =>
    rw [List.foldrM_cons]
    refine .within [.token op] (ih fun t ht => ho t (.tail _ ht)) ?_
    rintro inner _ rfl
    exact .node (.unary (ho op (.head _))) rfl rfl rfl

lemma Parses.unaryLayer {p : TokenKind → Bool} {operand : Parser NumberedTree}
    (hop : ∀ k, p k = true → isPrefixOperator k = true)
    (ho : Completes [] .expression operand) :
    Completes [] .expression (Parser.unaryLayer p operand) := by
  refine .bind (P := fun ops items => items = tokens ops ∧
    ∀ t ∈ ops, isPrefixOperator t.kind = true) (.many (.acceptIf ?_) ⟨rfl, nofun⟩ ?_) ?_
  · cases h : p .eof with
    | false => rfl
    | true => exact absurd (hop _ h) (by decide)
  · rintro ops o _ _ ⟨rfl, hs⟩ ⟨rfl, hk⟩
    refine ⟨by simp [tokens], fun t ht => ?_⟩
    rcases List.mem_append.1 ht with ht | ht
    · exact hs t ht
    · exact hop _ (hk t (Option.mem_toList.1 ht))
  · rintro ops _ ⟨rfl, hs⟩
    refine .bind ho ?_
    rintro innermost _ rfl
    exact .foldUnary hs

/-- The values between brackets, behind the opening one, with the closing one. -/
lemma Parses.arguments (hn : n.Sound) :
    Parses [] (Parser.arguments n) fun a items =>
      ∃ inside, items = inside ++ [.token a.2] ∧ Lists .expression isListMark a.1 inside ∧
        a.2.kind = .punctuator .closeParen := by
  refine .bind .blanks ?_
  rintro _ _ ⟨blanks, rfl, hb⟩
  refine .bind (.commaNodes .blanks hn.expression) fun values items hl => ?_
  refine .bind (.expect (by nofun)) ?_
  rintro close _ ⟨rfl, hc⟩
  exact .pure ⟨tokens blanks ++ items, by simp,
    Lists.append (l := []) ⟨listed_tokens hb, nodes_tokens blanks⟩ hl, hc⟩

/-- The elements of an array or of a record, behind the opening bracket. -/
lemma Parses.elements {c : Category} {close : TokenKind} {element : Parser NumberedTree}
    (he : Completes [] c element) :
    Parses [] (Parser.elements close element) (Lists c isListMark) := by
  refine .many (E := fun o => Lists c isListMark o.toList) ?_ ⟨listed_nil, rfl⟩
    fun _ _ _ _ => Lists.append
  refine .bind .isAt ?_
  rintro atClose _ rfl
  refine .ite (fun _ => .pure ⟨listed_nil, rfl⟩) fun _ => ?_
  refine .bind he ?_
  rintro read _ rfl
  refine .bind .blanks ?_
  rintro _ _ ⟨xs, rfl, hx⟩
  refine .bind (.accept (by nofun)) ?_
  rintro comma _ ⟨rfl, hc⟩
  refine .bind .blanks ?_
  rintro _ _ ⟨ys, rfl, hy⟩
  have hmarks : ∀ t ∈ xs ++ (comma.toList ++ ys), isListMark t.kind = true := by
    intro t ht
    simp only [List.mem_append, Option.mem_toList] at ht
    rcases ht with ht | ht | ht
    · exact hx t ht
    · simp [isListMark, hc t ht]
    · exact hy t ht
  refine .pure ?_
  simpa [tokens] using Lists.append (l := [read]) ⟨listed_node, rfl⟩
    ⟨listed_tokens hmarks, nodes_tokens _⟩

lemma Parses.arrayRest {opening : Token} (hn : n.Sound)
    (ho : opening.kind = .punctuator .openSquare) :
    Completes [.token opening] .expression (Parser.arrayRest n opening) := by
  refine .bind .blanks ?_
  rintro _ _ ⟨blanks, rfl, hb⟩
  refine .bind (.elements hn.expression) ?_
  rintro values items ⟨hl, rfl⟩
  refine .bind (.expect (by nofun)) ?_
  rintro close _ ⟨rfl, hc⟩
  exact .node (.array ho (listed_append (listed_tokens hb) hl) hc) (by simp)
    (by simp [Form.children]) rfl

lemma Parses.recordKey :
    Parses [] Parser.recordKey fun t items =>
      items = [.token t] ∧ (t.kind = .literal .string ∨ t.kind = .identifier) := by
  refine .onAt ?_ (Parses.expectName.mono fun t items h => ⟨h.1, .inr h.2⟩)
  rw [← bind_pure Parser.advance]
  exact .advance (by nofun) fun t ht => .pure ⟨rfl, .inl ht⟩

lemma Parses.recordMember (hn : n.Sound) :
    Completes [] .recordMember (Parser.recordMember n) := by
  refine .bind .recordKey ?_
  rintro key _ ⟨rfl, hk⟩
  refine .bind (.expect (by nofun)) ?_
  rintro colon _ ⟨rfl, hc⟩
  refine .bind .skipNewlines ?_
  rintro _ _ ⟨blanks, rfl, hb⟩
  refine .bind hn.expression ?_
  rintro value _ rfl
  exact .node (.recordMember hk hc hb) (by simp) (by simp [Form.children]) rfl

lemma Parses.recordRest {opening : Token} (hn : n.Sound)
    (ho : opening.kind = .punctuator .openCurly) :
    Completes [.token opening] .expression (Parser.recordRest n opening) := by
  refine .bind .blanks ?_
  rintro _ _ ⟨blanks, rfl, hb⟩
  refine .bind (.elements (.recordMember hn)) ?_
  rintro values items ⟨hl, rfl⟩
  refine .bind (.expect (by nofun)) ?_
  rintro close _ ⟨rfl, hc⟩
  exact .node (.record ho (listed_append (listed_tokens hb) hl) hc) (by simp)
    (by simp [Form.children]) rfl

/-- The call of a constructor is a node of its own inside the one for `new`. -/
lemma Parses.newRest {keyword : Token} (hn : n.Sound) (hk : keyword.kind = .keyword .newKw) :
    Completes [.token keyword] .expression (Parser.newRest n keyword) := by
  refine .bind .qualifiedName ?_
  rintro callee _ ⟨rfl, -⟩
  refine .bind (.expect (by nofun)) ?_
  rintro opening _ ⟨rfl, ho⟩
  refine .bind (.arguments hn) ?_
  rintro ⟨values, close⟩ _ ⟨inside, rfl, ⟨hl, rfl⟩, hc⟩
  simp only [List.append_assoc]
  refine .within [.token keyword]
    (.node (.call (.inr rfl) ho hl hc) (by simp) (by simp [Form.children]) rfl) ?_
  rintro call _ rfl
  exact .node (.new hk) rfl rfl rfl

lemma Parses.groupingRest {opening : Token} (hn : n.Sound)
    (ho : opening.kind = .punctuator .openParen) :
    Completes [.token opening] .expression (Parser.groupingRest n opening) := by
  refine .bind .skipNewlines ?_
  rintro _ _ ⟨xs, rfl, hx⟩
  refine .bind hn.expression ?_
  rintro inner _ rfl
  refine .bind .skipNewlines ?_
  rintro _ _ ⟨ys, rfl, hy⟩
  refine .bind (.expect (by nofun)) ?_
  rintro close _ ⟨rfl, hc⟩
  have hblank : ∀ t ∈ xs ++ ys, isBlank t.kind = true :=
    fun t ht => (List.mem_append.1 ht).elim (hx t) (hy t)
  exact .node (.grouping (v := inner) ho hblank hc) (by simp) (by simp [Form.children]) rfl

lemma Parses.primary (hn : n.Sound) : Completes [] .expression (Parser.primary n) := by
  have literal : ∀ k, k.isLiteral = true → k ≠ .eof → CompletesAt k [] .expression (do
      let token ← Parser.advance
      Parser.leaf (.literal token) token) :=
    fun k hk he => .advance he fun t ht => .node (.literal (ht ▸ hk)) rfl rfl rfl
  have function : ∀ k, isFunctionWord k = true → k ≠ .eof →
      CompletesAt k [] .expression (do Parser.functionRest n (← Parser.advance)) :=
    fun k hk he => .advance he fun t ht =>
      (Parses.functionRest none hn (ht ▸ hk) nofun).mono fun _ _ h => h.1
  refine .onKind fun k => ?_
  split
  · exact .advance (by nofun) fun t ht => .name ht
  · exact literal _ rfl (by nofun)
  · exact literal _ rfl (by nofun)
  · exact literal _ rfl (by nofun)
  · exact literal _ rfl (by nofun)
  · exact .advance (by nofun) fun t ht => .groupingRest hn ht
  · exact .advance (by nofun) fun t ht => .arrayRest hn ht
  · exact .advance (by nofun) fun t ht => .recordRest hn ht
  · exact function _ rfl (by nofun)
  · exact function _ rfl (by nofun)
  · exact .advance (by nofun) fun t ht => .newRest hn ht
  · exact Parses.at .refuseFor

lemma Parses.indexRest {object : NumberedTree} (question : Option Token) {opening : Token}
    (hn : n.Sound) (ho : IndexOpening question opening) :
    Completes (.node .expression object :: tokens question.toList ++ [.token opening])
      .expression (Parser.indexRest n object question opening) := by
  refine .bind .blanks ?_
  rintro _ _ ⟨blanks, rfl, hb⟩
  refine .bind (.commaNodes .blanks hn.expression) ?_
  rintro indexes items ⟨hl, rfl⟩
  refine .bind (.expect (by nofun)) ?_
  rintro close _ ⟨rfl, hc⟩
  have hlist := listed_append (listed_tokens hb) hl
  exact .node (.indexedGet ho hlist hc) (by simp) (by simp [Form.children]) rfl

/-- An access to a name behind its dot. -/
lemma Parses.dotRest {object : NumberedTree} {dot : Token} {role : NameRole}
    (hd : isAccessMark dot.kind = true) :
    Continues [.node .expression object, .token dot] .expression object (do
      Option.some <$> Parser.dottedAccess object dot (← Parser.expectName role)) := by
  refine .bind .expectName ?_
  rintro name _ ⟨rfl, hn⟩
  exact .grown (.dottedAccess hd hn)

/-- An accessor takes its object and the tokens behind it. -/
lemma Parses.accessor {object : NumberedTree} (hn : n.Sound) :
    Continues [.node .expression object] .expression object (Parser.accessor n object) := by
  have hne (p : Punctuator) : TokenKind.punctuator p ≠ .eof := nofun
  refine .onKind fun k => ?_
  split
  case h_1 => exact .advance (hne _) fun dot hd => .dotRest (by rw [hd]; rfl)
  case h_2 =>
    refine .advance (hne _) fun dot hd => .bind (.accept (hne _)) ?_
    rintro (_ | opening) _ ⟨rfl, ho⟩
    · exact .dotRest (by rw [hd]; rfl)
    · exact .grown (.indexRest dot hn (.questionDot hd (ho opening rfl)))
  case h_3 =>
    exact .advance (hne _) fun opening ho =>
      .grown (.indexRest none hn (.bare ho))
  case h_4 =>
    exact .advance (hne _) fun opening ho =>
      .grown (.indexRest none hn (.question ho))
  case h_5 =>
    refine .advance (hne _) fun opening ho => .bind (.arguments hn) ?_
    rintro ⟨values, close⟩ _ ⟨inside, rfl, ⟨hl, rfl⟩, hc⟩
    exact .grown (.node (.call (.inl rfl) ho hl hc) (by simp) (by simp [Form.children]) rfl)
  case h_6 =>
    refine .advance (hne _) fun op hop => .bind .expectName ?_
    rintro method _ ⟨rfl, hm⟩
    refine .bind (.expect (hne _)) ?_
    rintro opening _ ⟨rfl, ho⟩
    refine .bind (.arguments hn) ?_
    rintro ⟨values, close⟩ _ ⟨inside, rfl, ⟨hl, rfl⟩, hc⟩
    exact .grown (.node (.callfunc hop hm ho hl hc) (by simp) (by simp [Form.children]) rfl)
  case h_7 => exact Parses.at (.pure rfl)

lemma Parses.accessed (hn : n.Sound) : Completes [] .expression (Parser.accessed n) := by
  refine .bind (.primary hn) ?_
  rintro first _ rfl
  exact .grow (fun _ => .accessor hn) first

/-- Expressions are sound if the productions inside them are. -/
lemma Parses.expression (hn : n.Sound) : Completes [] .expression (Parser.expression n) := by
  have signed : Completes [] .expression (Parser.signed n) :=
    .unaryLayer (fun k h => by simp [isPrefixOperator, h]) (.accessed hn)
  have sum : Completes [] .expression (Parser.sum n) := by
    refine .binaryLayer ?_ (.binaryLayer ?_ (.binaryLayer ?_ signed))
    all_goals exact fun k h => by simp [isBinaryOperator, h]
  have comparison : Completes [] .expression (Parser.comparison n) := by
    refine .binaryLayer ?_ (.binaryLayer ?_ sum)
    all_goals exact fun k h => by simp [isBinaryOperator, h]
  refine .binaryLayer ?_ (.binaryLayer ?_ (.unaryLayer ?_ comparison))
  · exact fun k h => by simp [isBinaryOperator, of_decide_eq_true h]
  · exact fun k h => by simp [isBinaryOperator, of_decide_eq_true h]
  · exact fun k h => by simp [isPrefixOperator, of_decide_eq_true h]

end BrighterCheck.Parser
