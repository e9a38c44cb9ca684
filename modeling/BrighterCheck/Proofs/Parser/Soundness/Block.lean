import BrighterCheck.Proofs.Parser.Soundness.Basic

/-!
# Soundness of names, blocks and functions

What the parts that many statements share read: type names, dotted names, statement lists, members,
the words that end a block, and functions behind their keyword and name.
-/

namespace BrighterCheck

open BrighterCheck.Parser Item

/-- The productions that occur inside others read what they make. -/
structure Nested.Sound (n : Nested) : Prop where
  expression : Completes [] .expression n.expression
  statement : Completes [] .statement n.statement

namespace Parser

variable {c : Category} {n : Nested}

/-- A dotted type name is one token. -/
lemma Parses.typeName :
    Parses [] Parser.typeName fun t items => items = [.token t] ∧ t.kind = .identifier := by
  intro s₀ s t s' he hs h
  cases hs
  obtain ⟨first, u, hf, hi⟩ := bind_eq_ok.1 h
  obtain ⟨raw, rfl, hn, hs, hu⟩ := expectName_eq_ok he.kind_eof hf
  -- Every part of the name takes a dot and one more token off the front.
  have key : ∃ raw, Folded raw t ∧ t.kind = .identifier ∧ s₀.tokens = raw ++ s'.tokens ∧
      s' = { s₀ with tokens := s'.tokens } := by
    refine iterate_induction (I := fun t u => ∃ raw, Folded raw t ∧ t.kind = .identifier ∧
      s₀.tokens = raw ++ u.tokens ∧ u = { s₀ with tokens := u.tokens }) ?_
      ⟨[raw], .name hn, rfl, hs, hu⟩ hi
    rintro read v o w ⟨raw, hr, hk, ht, hv⟩ ho
    have hve : v.eof.kind = .eof := by rw [hv]; exact he.kind_eof
    rcases after_eq_ok (by rw [hve]; nofun) ho with
      ⟨rfl, rfl⟩ | ⟨joined, dot, x, rfl, hd, hx, hxs, hj⟩
    · exact ⟨raw, hr, hk, ht, hv⟩
    · obtain ⟨name, y, hy, hp⟩ := bind_eq_ok.1 hj
      obtain ⟨rfl, rfl⟩ := pure_eq_ok.1 hp
      have hxe : x.eof.kind = .eof := by rw [hxs]; exact hve
      obtain ⟨part, rfl, hpn, hpt, hys⟩ := expectName_eq_ok hxe hy
      refine ⟨raw ++ [dot, part], .dotted hr hk hd hpn, rfl, ?_, ?_⟩
      · rw [ht, hx, hpt]
        simp
      · rw [hys, hxs, hv]
  obtain ⟨raw, hr, hk, hs, hu⟩ := key
  refine ⟨[.token t], .token hr hs ?_, rfl, hk⟩
  rw [← hu]
  exact .nil s'

/-- A type or a parent behind its keyword. -/
lemma Parses.typed {mark : Keyword} :
    Parses [] (Parser.after (.keyword mark) Parser.typeName) (Typed mark) := by
  refine (Parses.after (by nofun) Parses.typeName).mono ?_
  rintro o items (⟨rfl, rfl⟩ | ⟨t, m, xs, rfl, hm, rfl, rfl, ht⟩)
  · exact .none
  · exact .some hm ht

/-- A value behind its mark. -/
lemma Parses.valued {mark : TokenKind} (hm : mark ≠ .eof) (hn : n.Sound) :
    Parses [] (Parser.after mark n.expression) (Valued mark) := by
  refine (Parses.after hm hn.expression).mono ?_
  rintro o items (⟨rfl, rfl⟩ | ⟨t, m, xs, rfl, hm, rfl, rfl⟩)
  · exact .none
  · exact .some hm

/-- A name as a node. -/
lemma Parses.name {t : Token} (ht : t.kind = .identifier) :
    Completes [.token t] .expression (Parser.leaf (.name t) t) :=
  .node (.name ht) rfl rfl rfl

/-- One more name behind an object. -/
lemma Parses.dottedAccess {object : NumberedTree} {dot name : Token}
    (hd : isAccessMark dot.kind = true) (hn : name.kind = .identifier) :
    Completes [.node .expression object, .token dot, .token name] .expression
      (Parser.dottedAccess object dot name) :=
  .node (.dottedGet hd hn) rfl rfl rfl

/-- A chain of names grows by one name behind each dot. -/
lemma Parses.qualifiedName {role : NameRole} :
    Parses [] (Parser.qualifiedName role) fun t items =>
      items = [.node .expression t] ∧ t.IsQualified := by
  refine .bind .plainIdentifier ?_
  rintro first _ ⟨rfl, hf, hplain⟩
  refine .within [] (Parses.newNode (.name hf) rfl rfl rfl) ?_
  rintro ⟨id, kind, range, children⟩ _ ⟨rfl, rfl, rfl, rfl⟩
  refine Parses.iterate ?_ ⟨rfl, .name hplain⟩
  rintro object _ ⟨rfl, hobject⟩
  refine .bind (.accept (by nofun)) ?_
  rintro (_ | dot) _ ⟨rfl, hd⟩
  · exact .pure ⟨rfl, hobject⟩
  · refine .bind .plainName ?_
    rintro name _ ⟨rfl, hn, hplain⟩
    refine .map (Parses.newNode (.dottedGet (by rw [hd dot rfl]; rfl) hn) rfl rfl rfl) ?_
    rintro ⟨id, kind, range, children⟩ _ ⟨rfl, rfl, rfl, rfl⟩
    exact ⟨rfl, .dotted hobject hplain⟩

/-- A comment in the place of a statement or a member. -/
lemma ParsesAt.comment (hc : c = .statement ∨ c = .member) :
    CompletesAt .comment [] c Parser.comment :=
  .advance (by nofun) fun _ ht => .node (.comment hc ht) rfl rfl rfl

/-- Separators are passed over. -/
lemma Parses.skipSeparators (c : Category) :
    Parses [] Parser.skipSeparators fun _ items => Lists c isSeparator [] items := by
  refine (Parses.skip rfl).mono ?_
  rintro _ _ ⟨ts, rfl, hts⟩
  exact ⟨listed_tokens hts, nodes_tokens ts⟩

/-- Statements up to the end of their block, with the separators around them. -/
lemma Parses.statements {e : Ending} (hn : n.Sound) :
    Parses [] (Parser.statements n e) (Lists .statement isSeparator) := by
  refine .many (E := fun o => Lists .statement isSeparator o.toList) ?_ ⟨listed_nil, rfl⟩
    fun _ _ _ _ => Lists.append
  refine .bind (.skipSeparators .statement) fun _ separators hs => ?_
  refine .bind .isAt ?_
  rintro atEnd _ rfl
  refine .bind .isAtEnding ?_
  rintro atEnding _ rfl
  refine .ite (fun _ => .pure (by simpa using hs)) fun _ => ?_
  refine .bind hn.statement ?_
  rintro statement _ rfl
  refine .bind .kind ?_
  rintro k _ rfl
  refine .ite (fun _ => .pure ?_) fun _ => .refuseFor
  simpa using hs.append ⟨listed_node, rfl⟩

/-- A block becomes a body. -/
lemma Parses.block {e : Ending} (hn : n.Sound) :
    Completes [] .body (Parser.block n e) := by
  refine .bind (.statements hn) ?_
  rintro ts items ⟨hl, rfl⟩
  exact .node (.body hl) rfl rfl rfl

/-- Two tokens that are both there are read. -/
lemma advanceTwo_eq_ok {s s' : Reading} {r : Range} (he : s.eof.kind = .eof)
    (hc : s.current.kind ≠ .eof) (hf : s.following ≠ .eof) (h : advanceTwo s = .ok r s') :
    ∃ t u, Reads s (tokens [t, u]) s' ∧ t.kind = s.current.kind ∧ u.kind = s.following ∧
      r = t.range.merge u.range := by
  obtain ⟨t, v, ht, h⟩ := bind_eq_ok.1 h
  obtain ⟨u, w, hu, h⟩ := bind_eq_ok.1 h
  obtain ⟨rfl, rfl⟩ := pure_eq_ok.1 h
  obtain ⟨rfl, hs, hv⟩ := advance_eq_ok (he ▸ hc) ht
  have e := current_kind_eq hs hf
  have hr := (reads_advance he hc ht).1
  obtain ⟨hr', rfl⟩ := reads_advance (hr.eof_eq ▸ he) (e ▸ hf) hu
  exact ⟨_, _, hr.append hr', rfl, e, rfl⟩

/-- The words that end a block. -/
lemma Parses.expectEnd {word : Keyword} :
    Parses [] (Parser.expectEnd word) fun r items =>
      ∃ ends, items = tokens ends ∧ Finish (.block word) ends r := by
  refine .bind (.acceptIf ?_) ?_
  · cases word <;> rfl
  · rintro (_ | joined) _ ⟨rfl, hj⟩
    · intro s₀ s r s' he hs h
      cases hs
      obtain ⟨b, _, hb, h⟩ := bind_eq_ok.1 h
      obtain ⟨rfl, rfl⟩ := isAt_eq_ok.1 hb
      obtain ⟨k, _, hk, h⟩ := bind_eq_ok.1 h
      obtain ⟨rfl, rfl⟩ := followingKind_eq_ok.1 hk
      split at h
      · rename_i hc
        simp only [Bool.and_eq_true, decide_eq_true_eq] at hc
        obtain ⟨t, u, hr, ht, hu, rfl⟩ :=
          advanceTwo_eq_ok he.kind_eof (by rw [hc.1]; nofun) (by rw [hc.2]; nofun) h
        exact ⟨_, hr, [t, u], rfl, .two (by simp [Ending.block, ht, hu, hc])⟩
      · exact absurd h not_refuseFor_eq_ok
    · refine .pure ⟨[joined], rfl, .one fun next => ?_⟩
      simpa [Ending.block] using .inr (hj joined rfl)

/-- The members of a declaration, with the separators around them. -/
lemma Parses.members {word : Keyword} {member : Parser NumberedTree}
    (hm : Completes [] .member member) :
    Parses [] (Parser.members word member) (Lists .member isSeparator) := by
  refine .many (E := fun o => Lists .member isSeparator o.toList) ?_ ⟨listed_nil, rfl⟩
    fun _ _ _ _ => Lists.append
  refine .bind (.skipSeparators .member) fun _ separators hs => ?_
  refine .bind .isAt ?_
  rintro atEnd _ rfl
  refine .bind .isAtEnding ?_
  rintro atEnding _ rfl
  refine .ite (fun _ => .pure (by simpa using hs)) fun _ => ?_
  refine .frame (E := fun o => Lists .member isSeparator o.toList) ?_ fun _ _ h => by
    simpa using hs.append h
  have hlist : ∀ t items, items = [.node .member t] → Lists .member isSeparator [t] items := by
    rintro t _ rfl
    exact ⟨listed_node, rfl⟩
  exact .onAt (.map (.comment (.inr rfl)) hlist) (.map hm hlist)

lemma Parses.parameter (hn : n.Sound) : Completes [] .parameter (Parser.parameter n) := by
  refine .bind .expectIdentifier ?_
  rintro name _ ⟨rfl, hi⟩
  refine .bind (.valued (by nofun) hn) fun value values hv => ?_
  refine .bind .typed fun type types ht => ?_
  refine .node (.parameter hi hv ht) (by simp) ?_ rfl
  cases hv <;> cases ht <;> rfl

/-- A function behind its keyword and its name, if it has one. -/
lemma Parses.functionRest {keyword : Token} (name : Option Token) (hn : n.Sound)
    (hk : isFunctionWord keyword.kind = true) (hname : ∀ t ∈ name, t.kind = .identifier) :
    Parses (.token keyword :: tokens name.toList) (Parser.functionRest n keyword) fun t items =>
      items = [.node (.ofFunction name) t] ∧
        ∃ r, t.range = some (keyword.range.merge r) := by
  refine .bind (.expect (by nofun)) ?_
  rintro opening _ ⟨rfl, ho⟩
  refine .bind .skipNewlines ?_
  rintro _ _ ⟨blanks, rfl, hb⟩
  refine .bind (.commaNodes .blanks (.parameter hn)) ?_
  rintro parameters items ⟨hl, rfl⟩
  refine .bind (.expect (by nofun)) ?_
  rintro close _ ⟨rfl, hc⟩
  refine .bind .typed fun returns types ht => ?_
  refine .bind (.block hn) ?_
  rintro body _ rfl
  refine .bind .expectEnd ?_
  rintro r _ ⟨ends, rfl, he⟩
  have hlist : Listed .parameter isListMark (tokens blanks ++ items) :=
    listed_append (listed_tokens fun t h => by simp [isListMark, hb t h]) hl
  have hp := Production.functionExpression (b := body) rfl hk hname ho hlist hc ht he
  refine (Parses.newNode hp (by simp) ?_ rfl).mono fun t _ h => ⟨h.1, r, h.2.2.1⟩
  cases ht <;> simp [Form.children]

end Parser

end BrighterCheck
