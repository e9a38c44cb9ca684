import BrighterCheck.Proofs.Parser.Passage.Basic

/-!
# Names, blocks and functions in both sources

A block can end with the first source, where the second one goes on; the words that end it are then
missing.
-/

namespace BrighterCheck.Passage

open BrighterCheck.Parser

/-- A tree and its relabelled copy. -/
abbrev OnTree (P : Passage) (t t' : NumberedTree) : Prop :=
  t' = P.relabel.tree t

abbrev OnTrees (P : Passage) (ts ts' : List NumberedTree) : Prop :=
  ts' = ts.map P.relabel.tree

abbrev OnName (P : Passage) (t t' : Token) : Prop :=
  t' = P.relabel.token t ∧ t.kind = .identifier

/-- Parsers for nested nodes that are carried over. -/
structure OnNested (P : Passage) (n n' : Nested) : Prop where
  expression : P.Takes P.OnTree n.expression n'.expression
  statement : P.Takes P.OnTree n.statement n'.statement

variable {P : Passage} {n n' : Nested} {lax : Prop}

lemma CarriesFrom.mapSome {m m' : Parser NumberedTree} (h : P.Carries lax P.OnTree m m') :
    P.Carries lax (Option.Rel P.OnTree) (some <$> m) (some <$> m') :=
  h.map fun _ _ => .some

lemma TakesFrom.typeName : P.Takes P.OnName Parser.typeName Parser.typeName := by
  refine expectName.bind ?_
  rintro first _ h
  refine .iterate ?_ h
  rintro read _ ⟨rfl, hread⟩
  refine (CarriesFrom.accept (by nofun) (by nofun)).bind ?_
  rintro (_ | dot) _ ⟨rfl, -⟩
  · exact .pure .none
  · refine .map (R := P.OnName) (expectName.carries.bind ?_) fun _ _ h => .some h
    rintro name _ ⟨rfl, hname⟩
    exact .pure ⟨(P.relabel.token_dotted hread hname).symm, rfl⟩

lemma CarriesFrom.optionalType :
    P.Carries lax (fun o o' => o' = o.map P.relabel.token) Parser.optionalType
      Parser.optionalType :=
  .after (by nofun) (by nofun) (TakesFrom.typeName.mono fun _ _ h => h.1).carries

lemma CarriesFrom.dottedAccess {object : NumberedTree} {dot name : Token} :
    P.Carries lax P.OnTree (Parser.dottedAccess object dot name)
      (Parser.dottedAccess (P.relabel.tree object) (P.relabel.token dot)
        (P.relabel.token name)) :=
  .node rfl (by simp) rfl

lemma TakesFrom.qualifiedName {role : NameRole} :
    P.Takes P.OnTree (Parser.qualifiedName role) (Parser.qualifiedName role) := by
  refine expectIdentifier.bind ?_
  rintro first _ ⟨rfl, -⟩
  refine (CarriesFrom.node rfl rfl rfl).bind ?_
  rintro name _ rfl
  refine .iterate ?_ rfl
  rintro object _ rfl
  refine (CarriesFrom.accept (by nofun) (by nofun)).bind ?_
  rintro (_ | dot) _ ⟨rfl, -⟩
  · exact .pure .none
  · refine expectName.carries.bind ?_
    rintro name _ ⟨rfl, -⟩
    exact .mapSome .dottedAccess

lemma TakesFrom.comment : P.TakesAt .comment P.OnTree Parser.comment Parser.comment := by
  refine (TakesFrom.advance (by nofun)).bind ?_
  rintro t _ ⟨rfl, -⟩
  exact .node rfl rfl rfl

lemma CarriesFrom.skipSeparators :
    P.Carries True (fun _ _ => True) Parser.skipSeparators Parser.skipSeparators :=
  skip rfl fun _ => trivial

/-- Whether the current token is of some kind, where it does not matter what follows the source. -/
lemma CarriesFrom.isAt {k : TokenKind} :
    P.Carries True Eq (Parser.isAt k) (Parser.isAt k) :=
  onKind (fun _ => .pure rfl) fun htail => .ofLost htail rfl

/-- An ending that takes a line end behind the current token for the end of the source. -/
def IsBlind (e : Ending) : Prop :=
  ∀ k, e k .newline = e k .eof

lemma isBlind_block (word : Keyword) : IsBlind (.block word) :=
  fun _ => by simp [Ending.block]

lemma isBlind_forBlock : IsBlind .forBlock :=
  fun k => by simp [Ending.forBlock, isBlind_block .forKw k]

lemma isBlind_conditional : IsBlind .conditional :=
  fun _ => by simp [Ending.conditional]

lemma isBlind_none : IsBlind .none :=
  fun _ => rfl

lemma IsBlind.orAt {e : Ending} (he : IsBlind e) (mark : TokenKind) : IsBlind (.orAt mark e) :=
  fun k => by simp [Ending.orAt, he k]

lemma CarriesFrom.isAtEnding {e : Ending} (he : IsBlind e) :
    P.Carries True Eq (Parser.isAtEnding e) (Parser.isAtEnding e) where
  leads _ hm := by
    obtain ⟨-, rfl⟩ := isAtEnding_eq_ok.1 hm
    exact ⟨.refl _, _, rfl⟩
  ok {s s' _ _} _ hs hm := by
    obtain ⟨rfl, rfl⟩ := isAtEnding_eq_ok.1 hm
    rcases hs.kind_or with hk | ⟨hlost, -⟩
    · rcases hs.following_or with hf | ⟨hf, hf'⟩ | hlost
      · exact .inr ⟨_, s', isAtEnding_eq_ok.2 ⟨by rw [hk, hf], rfl⟩, rfl, hs⟩
      · exact .inr ⟨_, s', isAtEnding_eq_ok.2 ⟨by rw [hk, hf, hf', he], rfl⟩, rfl, hs⟩
      · exact .inl ⟨trivial, hlost⟩
    · exact .inl ⟨trivial, hlost⟩
  error _ _ _ hm := nomatch hm

/-- Statements up to the end of their block, which may be lost at the end of the source. -/
lemma CarriesFrom.statements {e : Ending} (hn : P.OnNested n n') (he : IsBlind e) :
    P.Carries True P.OnTrees (Parser.statements n e) (Parser.statements n' e) := by
  refine .many ?_
  refine CarriesFrom.skipSeparators.bind fun _ _ _ => ?_
  refine CarriesFrom.isAt.bind ?_
  rintro atEnd _ rfl
  refine (CarriesFrom.isAtEnding he).bind ?_
  rintro atEnding _ rfl
  refine .ite (fun _ => .pure rfl) fun _ => ?_
  refine hn.statement.carries.bind ?_
  rintro statement _ rfl
  exact .onTest rfl (.pure rfl) TakesFrom.refuseFor.carries

lemma CarriesFrom.block {e : Ending} (hn : P.OnNested n n') (he : IsBlind e) :
    P.Carries True P.OnTree (Parser.block n e) (Parser.block n' e) := by
  refine (CarriesFrom.statements hn he).bind ?_
  rintro ts _ rfl
  exact .node rfl (by simp) rfl

/-- Two tokens of known kinds are taken in both sources. -/
lemma TakesFrom.advanceTwo {k next : TokenKind} (hk : k ≠ .eof) (hnext : next ≠ .eof) :
    P.TakesFrom (fun s => s.current.kind = k ∧ s.following = next)
      (fun r r' => r' = P.relabel.range r) Parser.advanceTwo Parser.advanceTwo where
  leads _ h := by
    obtain ⟨t, u, ht, h⟩ := bind_eq_ok.1 h
    obtain ⟨v, x, hv, h⟩ := bind_eq_ok.1 h
    obtain ⟨-, rfl⟩ := pure_eq_ok.1 h
    exact ⟨(Reading.leads_advance ht).1.trans (Reading.leads_advance hv).1, _, rfl⟩
  ok := by
    rintro s s' r w ⟨rfl, rfl⟩ hs h
    obtain ⟨t, u, ht, h⟩ := bind_eq_ok.1 h
    obtain ⟨v, x, hv, h⟩ := bind_eq_ok.1 h
    obtain ⟨rfl, rfl⟩ := pure_eq_ok.1 h
    have htokens := (advance_eq_ok (hs.kind_eof ▸ hk) ht).2.1
    obtain ⟨u', ht', hu⟩ := hs.advance hk ht
    obtain ⟨x', hv', hx⟩ := hu.advance (current_kind_eq htokens hnext ▸ hnext) hv
    refine .inr ⟨_, x', ?_, rfl, hx⟩
    refine bind_eq_ok.2 ⟨_, u', ht', bind_eq_ok.2 ⟨_, x', hv', ?_⟩⟩
    exact pure_eq_ok.2 ⟨by simp, rfl⟩
  error _ _ _ h := by
    rcases bind_eq_error.1 h with h | ⟨t, u, -, h⟩
    · exact absurd h not_advance_eq_error
    · rcases bind_eq_error.1 h with h | ⟨v, x, -, h⟩
      · exact absurd h not_advance_eq_error
      · cases h
  takes := by
    rintro s r w ⟨rfl, rfl⟩ he h
    obtain ⟨t, u, ht, h⟩ := bind_eq_ok.1 h
    obtain ⟨v, x, hv, h⟩ := bind_eq_ok.1 h
    obtain ⟨-, rfl⟩ := pure_eq_ok.1 h
    rw [(advance_eq_ok (he ▸ hk) ht).2.1]
    exact Nat.lt_succ_of_le (Reading.leads_advance hv).1.length_le

/-- The words that end a block, of which the second one decides. -/
lemma TakesFrom.twoWords {k : TokenKind} {p : TokenKind → Bool} {what : Expected}
    (hk : k = .eof → ∀ next, p next = false) (he : p .eof = false) (hn : p .newline = false) :
    P.TakesAt k (fun r r' => r' = P.relabel.range r)
      (followingKind >>= fun next => if p next then Parser.advanceTwo else Parser.refuseFor what)
      (followingKind >>= fun next =>
        if p next then Parser.advanceTwo else Parser.refuseFor what) := by
  by_cases hk' : k = .eof
  · simp only [hk hk', Bool.false_eq_true, if_false]
    exact refuseFor
  · refine .onFollowing hk' (fun next => ?_) ?_
    · refine .ite (fun hp => advanceTwo hk' ?_) fun _ => .refuseFor
      rintro rfl
      rw [he] at hp
      cases hp
    · simp only [he, hn, Bool.false_eq_true, if_false]
      exact refuseFor.carries

/-- The end of a block is missing where the source ends. -/
lemma TakesFrom.expectEnd {word : Keyword} :
    P.Takes (fun r r' => r' = P.relabel.range r) (Parser.expectEnd word)
      (Parser.expectEnd word) := by
  refine acceptIf (by cases word <;> rfl) (fun joined _ => .pure rfl) fun k _ => ?_
  simp only [isAt_bind]
  refine kindAt (twoWords (p := fun next => decide (k = .keyword .endKw) && next = .keyword word)
    ?_ ?_ ?_)
  · rintro rfl next
    rfl
  · simp
  · simp

/-- The members of a declaration, which may be lost at the end of the source. -/
lemma CarriesFrom.members {word : Keyword} {member member' : Parser NumberedTree}
    (hm : P.Takes P.OnTree member member') :
    P.Carries True P.OnTrees (Parser.members word member) (Parser.members word member') := by
  refine .many ?_
  refine CarriesFrom.skipSeparators.bind fun _ _ _ => ?_
  refine CarriesFrom.isAt.bind ?_
  rintro atEnd _ rfl
  refine (CarriesFrom.isAtEnding (isBlind_block word)).bind ?_
  rintro atEnding _ rfl
  refine .ite (fun _ => .pure rfl) fun _ => ?_
  have hmap : ∀ t t', P.OnTree t t' → some t' = (some t).map P.relabel.tree := by
    rintro t _ rfl
    rfl
  simp only [isAt_bind]
  refine (TakesFrom.onKind fun k => .ite (fun hk => ?_) fun _ => (hm.map hmap).ofAny).carries
  rw [of_decide_eq_true hk]
  exact TakesFrom.comment.map hmap

lemma TakesFrom.parameter (hn : P.OnNested n n') :
    P.Takes P.OnTree (Parser.parameter n) (Parser.parameter n') := by
  refine expectIdentifier.bind ?_
  rintro name _ ⟨rfl, -⟩
  refine (CarriesFrom.after (by nofun) (by nofun) hn.expression.carries).bind ?_
  rintro value _ rfl
  refine CarriesFrom.optionalType.bind ?_
  rintro type _ rfl
  refine .node rfl ?_ ?_
  · cases value <;> simp
  · cases value <;> rfl

/-- A function ends with words of its own. -/
lemma TakesFrom.functionRest {keyword : Token} (hn : P.OnNested n n') :
    P.Takes P.OnTree (Parser.functionRest n keyword)
      (Parser.functionRest n' (P.relabel.token keyword)) := by
  refine .after (expect (by nofun)).carries ?_
  rintro opening _ ⟨rfl, -⟩
  refine .after CarriesFrom.skipNewlines fun _ _ _ => ?_
  refine .after (.commaList rfl .skipNewlines (parameter hn).carries) ?_
  rintro parameters _ rfl
  refine .after (expect (by nofun)).carries ?_
  rintro close _ ⟨rfl, -⟩
  refine .after CarriesFrom.optionalType ?_
  rintro returns _ rfl
  refine .after (.block hn (isBlind_block _)) ?_
  rintro body _ rfl
  refine expectEnd.bind ?_
  rintro finish _ rfl
  exact .node rfl (by simp) (by simp [Form.children])

end BrighterCheck.Passage
