import BrighterCheck.Proofs.Parser.Separation.Block
import BrighterCheck.Parser.Expression

/-!
# Expressions are spaced

The only statement lists inside an expression are the bodies of functions; all other nodes have the
trees that were read for their parts as children.
-/

namespace BrighterCheck.Gives

open BrighterCheck.Parser

variable {n : Nested} {tokens : List Token}

lemma typeName : Passes tokens Parser.typeName :=
  ofParses Parses.typeName

lemma optionalType : Passes tokens Parser.optionalType :=
  ofParses Parses.typed

lemma skipNewlines : Passes tokens Parser.skipNewlines :=
  skip

lemma expectEnd {word : Keyword} : Passes tokens (Parser.expectEnd word) :=
  ofParses Parses.expectEnd

lemma dottedAccess {object : NumberedTree} {dot name : Token} (ho : IsSpaced tokens object) :
    GivesTree tokens (Parser.dottedAccess object dot name) :=
  node (by nofun) (by simpa [Form.children] using ho)

lemma qualifiedName {role : NameRole} : GivesTree tokens (Parser.qualifiedName role) := by
  refine expectIdentifier.andThen fun first => (leaf (by nofun) rfl).bind fun name hname => ?_
  refine iterate (fun object ho => accept.andThen fun dot => ?_) hname
  cases dot with
  | none => exact .pureNone
  | some dot => exact expectName.andThen fun name => (dottedAccess ho).mapSome

lemma comment : GivesTree tokens Parser.comment :=
  advance.andThen fun _ => leaf (by nofun) rfl

/-- Members are read behind separators, one after the other or a comment in between. -/
lemma members {word : Keyword} {member : Parser NumberedTree} (hm : GivesTree tokens member) :
    GivesTrees tokens (Parser.members word member) := by
  refine many (skip.andThen fun _ => isAt.andThen fun _ => ?_)
  refine (kind.andThen fun _ => followingKind.andThen fun _ => .pure trivial).andThen fun _ => ?_
  refine .ite (fun _ => .pureNone) fun _ => isAt.andThen fun _ => ?_
  exact .ite (fun _ => comment.mapSome) fun _ => hm.mapSome

lemma parameter (hn : n.Spaces tokens) : GivesTree tokens (Parser.parameter n) :=
  expectIdentifier.andThen fun _ => (after hn.expression).bind fun _ hv =>
    optionalType.andThen fun _ => node (by nofun) (by simpa [Form.children] using hv)

lemma functionRest {keyword : Token} (hn : n.Spaces tokens) :
    GivesTree tokens (Parser.functionRest n keyword) :=
  expect.andThen fun _ => skipNewlines.andThen fun _ =>
    (commaList skipNewlines (parameter hn)).bind fun _ hp => expect.andThen fun _ =>
      optionalType.andThen fun _ => (block hn).bind fun _ hb => expectEnd.andThen fun _ =>
        node (by nofun) (List.forall_mem_append.2 ⟨hp, List.forall_mem_singleton.2 hb⟩)

/-- Operands with operators between them. -/
lemma binaryLayer {isOperator : TokenKind → Bool} {operand : Parser NumberedTree}
    (h : GivesTree tokens operand) : GivesTree tokens (Parser.binaryLayer isOperator operand) := by
  refine h.bind fun first hfirst => iterate (fun left hl => acceptIf.andThen fun operator => ?_)
    hfirst
  cases operator with
  | none => exact .pureNone
  | some operator =>
    exact h.bind fun right hr => (node (by nofun) (by simp [Form.children, hl, hr])).mapSome

lemma foldUnary {operators : List Token} {operand : NumberedTree} (h : IsSpaced tokens operand) :
    GivesTree tokens (operators.foldrM unaryNode operand) := by
  induction operators with
  | nil => exact .pure h
  | cons operator operators ih =>
    rw [List.foldrM_cons]
    exact ih.bind fun inner hi => node (by nofun) (by simpa [Form.children] using hi)

lemma unaryLayer {isOperator : TokenKind → Bool} {operand : Parser NumberedTree}
    (h : GivesTree tokens operand) : GivesTree tokens (Parser.unaryLayer isOperator operand) :=
  (many (Q := fun _ => True) (acceptIf.mono fun _ _ _ _ => trivial)).bind fun _ _ =>
    h.bind fun _ hi => foldUnary hi

lemma arguments (hn : n.Spaces tokens) :
    Gives tokens (Parser.arguments n) fun p => ∀ t ∈ p.1, IsSpaced tokens t :=
  skipNewlines.andThen fun _ => (commaList skipNewlines hn.expression).bind fun _ hv =>
    expect.andThen fun _ => .pure hv

lemma elements {close : TokenKind} {element : Parser NumberedTree} (h : GivesTree tokens element) :
    GivesTrees tokens (Parser.elements close element) := by
  refine many (isAt.andThen fun _ => .ite (fun _ => .pureNone) fun _ => ?_)
  refine h.bind fun read hr => skipNewlines.andThen fun _ => accept.andThen fun _ => ?_
  exact skipNewlines.andThen fun _ => .pure fun _ ht => Option.some.inj ht ▸ hr

lemma arrayRest {openSquare : Token} (hn : n.Spaces tokens) :
    GivesTree tokens (Parser.arrayRest n openSquare) :=
  skipNewlines.andThen fun _ => (elements hn.expression).bind fun _ hv =>
    expect.andThen fun _ => node (by nofun) hv

lemma recordMember (hn : n.Spaces tokens) : GivesTree tokens (Parser.recordMember n) :=
  (ofParses Parses.recordKey).andThen fun _ => expect.andThen fun _ => skipNewlines.andThen fun _ =>
    hn.expression.bind fun _ hv => node (by nofun) (by simpa [Form.children] using hv)

lemma recordRest {openCurly : Token} (hn : n.Spaces tokens) :
    GivesTree tokens (Parser.recordRest n openCurly) :=
  skipNewlines.andThen fun _ => (elements (recordMember hn)).bind fun _ hv =>
    expect.andThen fun _ => node (by nofun) hv

/-- What is called, and behind it the arguments. -/
lemma callNode {form : Form NumberedTree} {range : Option Range} {callee : NumberedTree}
    {values : List NumberedTree} (hk : form.kind ≠ .body) (hform : form.children = callee :: values)
    (hc : IsSpaced tokens callee) (hv : ∀ t ∈ values, IsSpaced tokens t) :
    GivesTree tokens (Parser.node form range) :=
  node hk (hform ▸ List.forall_mem_cons.2 ⟨hc, hv⟩)

lemma newRest {keyword : Token} (hn : n.Spaces tokens) :
    GivesTree tokens (Parser.newRest n keyword) :=
  qualifiedName.bind fun _ hc => expect.andThen fun _ => (arguments hn).bind fun _ hv =>
    (callNode (by nofun) rfl hc hv).bind fun _ hcall =>
      node (by nofun) (by simpa [Form.children] using hcall)

lemma groupingRest {openParen : Token} (hn : n.Spaces tokens) :
    GivesTree tokens (Parser.groupingRest n openParen) :=
  skipNewlines.andThen fun _ => hn.expression.bind fun _ hi => skipNewlines.andThen fun _ =>
    expect.andThen fun _ => node (by nofun) (by simpa [Form.children] using hi)

lemma primary (hn : n.Spaces tokens) : GivesTree tokens (Parser.primary n) := by
  refine kind.andThen fun k => ?_
  split
  -- Literals and names are a token alone; behind all others, something is nested.
  · exact advance.andThen fun _ => leaf (by nofun) rfl
  · exact advance.andThen fun _ => leaf (by nofun) rfl
  · exact advance.andThen fun _ => leaf (by nofun) rfl
  · exact advance.andThen fun _ => leaf (by nofun) rfl
  · exact advance.andThen fun _ => leaf (by nofun) rfl
  · exact advance.andThen fun _ => groupingRest hn
  · exact advance.andThen fun _ => arrayRest hn
  · exact advance.andThen fun _ => recordRest hn
  · exact advance.andThen fun _ => functionRest hn
  · exact advance.andThen fun _ => functionRest hn
  · exact advance.andThen fun _ => newRest hn
  · exact refuseFor

lemma indexRest {object : NumberedTree} {questionDot : Option Token} {openSquare : Token}
    (hn : n.Spaces tokens) (ho : IsSpaced tokens object) :
    GivesTree tokens (Parser.indexRest n object questionDot openSquare) :=
  skipNewlines.andThen fun _ => (commaList skipNewlines hn.expression).bind fun _ hi =>
    expect.andThen fun _ => callNode (by nofun) rfl ho hi

/-- An accessor has the node before it as its first child. -/
lemma accessor {object : NumberedTree} (hn : n.Spaces tokens) (ho : IsSpaced tokens object) :
    GivesOption tokens (Parser.accessor n object) := by
  refine kind.andThen fun k => ?_
  split
  · exact advance.andThen fun _ => expectName.andThen fun _ => (dottedAccess ho).mapSome
  · refine advance.andThen fun dot => accept.andThen fun openSquare => ?_
    cases openSquare with
    | none => exact expectName.andThen fun _ => (dottedAccess ho).mapSome
    | some openSquare => exact (indexRest hn ho).mapSome
  · exact advance.andThen fun _ => (indexRest hn ho).mapSome
  · exact advance.andThen fun _ => (indexRest hn ho).mapSome
  · exact advance.andThen fun _ => (arguments hn).bind fun _ hv =>
      (callNode (by nofun) rfl ho hv).mapSome
  · exact advance.andThen fun _ => expectName.andThen fun _ => expect.andThen fun _ =>
      (arguments hn).bind fun _ hv => (callNode (by nofun) rfl ho hv).mapSome
  · exact .pureNone

lemma accessed (hn : n.Spaces tokens) : GivesTree tokens (Parser.accessed n) :=
  (primary hn).bind fun _ hfirst => iterate (fun _ ho => accessor hn ho) hfirst

lemma expression (hn : n.Spaces tokens) : GivesTree tokens (Parser.expression n) :=
  binaryLayer <| binaryLayer <| unaryLayer <| binaryLayer <| binaryLayer <| binaryLayer <|
    binaryLayer <| binaryLayer <| unaryLayer <| accessed hn

end BrighterCheck.Gives
