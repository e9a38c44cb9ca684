import BrighterCheck.Proofs.Parser.Separation.Expression
import BrighterCheck.Proofs.Parser.Soundness.File

/-!
# Statements are spaced

Blocks and the branches of conditionals are the statement lists of a statement. From its rules
follows, by induction on the depth, that everything that is read in a source is spaced.
-/

namespace BrighterCheck

open BrighterCheck.Parser

namespace Parser

/-- The condition and the branch of an arm are spaced. -/
structure Arm.IsSpaced (tokens : List Token) (arm : Arm) : Prop where
  condition : BrighterCheck.IsSpaced tokens arm.condition
  branch : BrighterCheck.IsSpaced tokens arm.branch

/-- The parts of arms are spaced, and so is a node that is built from them. -/
structure ArmStyle.Spaces (style : ArmStyle) (tokens : List Token) : Prop where
  condition : GivesTree tokens style.condition
  branch : GivesTree tokens style.branch
  last : GivesTree tokens style.last
  build : ∀ {arm other}, arm.IsSpaced tokens → (∀ t ∈ other, IsSpaced tokens t) →
    GivesTree tokens (style.build arm other)

end Parser

namespace Gives

variable {n : Nested} {tokens : List Token} {style : ArmStyle}

lemma laterArms (h : style.Spaces tokens) :
    Gives tokens (Parser.laterArms style) fun p =>
      (∀ arm ∈ p.1, arm.IsSpaced tokens) ∧ ∀ t ∈ p.2, IsSpaced tokens t := by
  refine iterate ?_ ⟨List.forall_mem_nil _, nofun⟩
  rintro ⟨arms, last⟩ ⟨harms, hlast⟩
  refine .ite (fun _ => .pureNone) fun _ => accept.andThen fun otherwise => ?_
  cases otherwise with
  | none => exact .pureNone
  | some otherwise =>
    refine accept.andThen fun keyword => ?_
    cases keyword with
    | none =>
      refine h.last.bind fun branch hb => .pure ?_
      rintro _ ⟨⟩
      exact ⟨harms, fun t ht => Option.some.inj ht ▸ hb⟩
    | some keyword =>
      refine h.condition.bind fun condition hc => h.branch.bind fun branch hb => .pure ?_
      rintro _ ⟨⟩
      exact ⟨List.forall_mem_cons.2 ⟨⟨hc, hb⟩, harms⟩, nofun⟩

lemma foldArms {arms : List Arm} {last : Option NumberedTree} (h : style.Spaces tokens)
    (harms : ∀ arm ∈ arms, arm.IsSpaced tokens) (hlast : ∀ t ∈ last, IsSpaced tokens t) :
    GivesOption tokens (arms.foldlM (fun other arm => some <$> style.build arm other) last) := by
  induction arms generalizing last with
  | nil => exact .pure hlast
  | cons arm arms ih =>
    obtain ⟨harm, harms⟩ := List.forall_mem_cons.1 harms
    rw [List.foldlM_cons]
    exact (h.build harm hlast).mapSome.bind fun other ho => ih harms ho

lemma armChain {keyword : Token} {condition : NumberedTree} (h : style.Spaces tokens)
    (hc : IsSpaced tokens condition) :
    GivesTree tokens (Parser.armChain style keyword condition) :=
  h.branch.bind fun _ hb => (laterArms h).bind fun _ hp => (foldArms h hp.1 hp.2).bind
    fun _ ho => h.build ⟨hc, hb⟩ ho

lemma condition (hn : n.Spaces tokens) : GivesTree tokens (Parser.condition n) :=
  hn.expression.bind fun _ hc => accept.andThen fun _ => .pure hc

/-- The children of a conditional are its condition and its branches. -/
lemma armNode {form : Form NumberedTree} {range : Option Range} {arm : Arm}
    {other : Option NumberedTree} (hk : form.kind ≠ .body)
    (hform : form.children = arm.condition :: arm.branch :: other.toList)
    (ha : arm.IsSpaced tokens) (ho : ∀ t ∈ other, IsSpaced tokens t) :
    GivesTree tokens (Parser.node form range) :=
  node hk (by simpa [hform, ha.condition, ha.branch] using ho)

lemma blockStyle (hn : n.Spaces tokens) : (Parser.blockStyle n).Spaces tokens where
  condition := condition hn
  branch := block hn
  last := block hn
  build := armNode (by nofun) rfl

lemma inlineStyle (hn : n.Spaces tokens) : (Parser.inlineStyle n).Spaces tokens where
  condition := condition hn
  branch := inlineBody hn
  last := inlineBody hn
  build := armNode (by nofun) rfl

lemma conditionalStyle (hn : n.Spaces tokens) : (Parser.conditionalStyle n).Spaces tokens where
  condition := hn.expression
  branch := block hn
  last := block hn
  build := armNode (by nofun) rfl

lemma ifStatement (hn : n.Spaces tokens) : GivesTree tokens (Parser.ifStatement n) := by
  refine advance.andThen fun keyword => (condition hn).bind fun condition hc => ?_
  refine kind.andThen fun k => .ite (fun _ => ?_) fun _ => armChain (inlineStyle hn) hc
  exact (armChain (blockStyle hn) hc).bind fun _ ht => expectEnd.andThen fun _ => extend ht

lemma conditionalBlock (hn : n.Spaces tokens) : GivesTree tokens (Parser.conditionalBlock n) :=
  advance.andThen fun _ => hn.expression.bind fun _ hc =>
    (armChain (conditionalStyle hn) hc).bind fun _ ht =>
      (ofParses Parses.expectConditionalEnd).andThen fun _ => extend ht

lemma functionDeclaration (hn : n.Spaces tokens) :
    GivesTree tokens (Parser.functionDeclaration n) :=
  advance.andThen fun _ => expectIdentifier.andThen fun _ => (functionRest hn).bind fun _ hf =>
    node (by nofun) (by simpa [Form.children] using hf)

lemma namespaceDeclaration (hn : n.Spaces tokens) :
    GivesTree tokens (Parser.namespaceDeclaration n) :=
  advance.andThen fun _ => qualifiedName.bind fun _ hname => (block hn).bind fun _ hb =>
    expectEnd.andThen fun _ => node (by nofun) (by simp [Form.children, hname, hb])

lemma method {access overriding : Option Token} {keyword : Token} (hn : n.Spaces tokens) :
    GivesTree tokens (Parser.method n access overriding keyword) :=
  expectName.andThen fun _ => (functionRest hn).bind fun _ hf =>
    node (by nofun) (by simpa [Form.children] using hf)

lemma field {access overriding : Option Token} (hn : n.Spaces tokens) :
    GivesTree tokens (Parser.field n access overriding) :=
  expectName.andThen fun _ => optionalType.andThen fun _ => (after hn.expression).bind fun _ hv =>
    node (by nofun) (by simpa [Form.children] using hv)

lemma classMember (hn : n.Spaces tokens) : GivesTree tokens (Parser.classMember n) := by
  refine acceptIf.andThen fun access => accept.andThen fun overriding => ?_
  refine acceptIf.andThen fun keyword => ?_
  cases keyword with
  | none => exact field hn
  | some keyword => exact method hn

lemma classDeclaration (hn : n.Spaces tokens) : GivesTree tokens (Parser.classDeclaration n) :=
  advance.andThen fun _ => expectIdentifier.andThen fun _ =>
    (ofParses Parses.typed).andThen fun _ => (members (classMember hn)).bind fun _ hm =>
      expectEnd.andThen fun _ => node (by nofun) hm

/-- What an interface announces has no children. -/
lemma interfaceMember : GivesTree tokens Parser.interfaceMember := by
  refine acceptIf.andThen fun keyword => ?_
  cases keyword with
  | none =>
    exact expectName.andThen fun _ => optionalType.andThen fun _ => node (by nofun) nofun
  | some keyword =>
    refine expectName.andThen fun _ => expect.andThen fun _ => ?_
    refine (ofParses (.commaList .noBlanks .interfaceParameter (P := fun _ _ => True) trivial
      (fun _ _ _ _ _ _ => trivial) fun _ _ _ _ _ => trivial)).andThen fun _ => ?_
    exact expect.andThen fun _ => optionalType.andThen fun _ => node (by nofun) nofun

lemma interfaceDeclaration : GivesTree tokens Parser.interfaceDeclaration :=
  advance.andThen fun _ => expectIdentifier.andThen fun _ =>
    (ofParses Parses.typed).andThen fun _ => (members interfaceMember).bind fun _ hm =>
      expectEnd.andThen fun _ => node (by nofun) hm

lemma enumMember (hn : n.Spaces tokens) : GivesTree tokens (Parser.enumMember n) :=
  expectName.andThen fun _ => (after hn.expression).bind fun _ hv =>
    node (by nofun) (by simpa [Form.children] using hv)

lemma enumDeclaration (hn : n.Spaces tokens) : GivesTree tokens (Parser.enumDeclaration n) :=
  advance.andThen fun _ => expectIdentifier.andThen fun _ =>
    (members (enumMember hn)).bind fun _ hm => expectEnd.andThen fun _ => node (by nofun) hm

lemma namedValue {role : NameRole} {make : Token → Token → NumberedTree → Form NumberedTree}
    (hn : n.Spaces tokens) (hk : ∀ k name v, (make k name v).kind ≠ .body)
    (hc : ∀ k name v, (make k name v).children = [v]) :
    GivesTree tokens (Parser.namedValue n role make) :=
  advance.andThen fun _ => expectIdentifier.andThen fun _ => expect.andThen fun _ =>
    hn.expression.bind fun _ hv => node (hk _ _ _) (by simpa [hc] using hv)

lemma single {make : Token → Form NumberedTree} (hk : ∀ t, (make t).kind ≠ .body)
    (hc : ∀ t, (make t).children = []) : GivesTree tokens (Parser.single make) :=
  advance.andThen fun _ => leaf (hk _) (hc _)

lemma withOptionalToken {wanted : TokenKind → Bool}
    {make : Token → Option Token → Form NumberedTree} (hk : ∀ t o, (make t o).kind ≠ .body)
    (hc : ∀ t o, (make t o).children = []) :
    GivesTree tokens (Parser.withOptionalToken wanted make) :=
  advance.andThen fun _ => acceptIf.andThen fun _ => node (hk _ _) (by simp [hc])

lemma library : GivesTree tokens Parser.library := by
  refine bind (withOptionalToken ?_ fun _ _ => rfl) fun _ ht =>
    noteReference.andThen fun _ => .pure ht
  exact fun _ _ => nofun

lemma importStatement : GivesTree tokens Parser.importStatement := by
  refine bind (withOptionalToken ?_ fun _ _ => rfl) fun _ ht =>
    noteReference.andThen fun _ => .pure ht
  exact fun _ _ => nofun

lemma optionalExpression (hn : n.Spaces tokens) :
    GivesOption tokens (Parser.optionalExpression n) :=
  kind.andThen fun _ => .ite (fun _ => .pureNone) fun _ => hn.expression.mapSome

lemma returnStatement (hn : n.Spaces tokens) : GivesTree tokens (Parser.returnStatement n) :=
  advance.andThen fun _ => (optionalExpression hn).bind fun _ hv =>
    node (by nofun) (by simpa [Form.children] using hv)

lemma throwStatement (hn : n.Spaces tokens) : GivesTree tokens (Parser.throwStatement n) :=
  advance.andThen fun _ => hn.expression.bind fun _ hv =>
    node (by nofun) (by simpa [Form.children] using hv)

lemma printStatement (hn : n.Spaces tokens) : GivesTree tokens (Parser.printStatement n) :=
  advance.andThen fun _ => (many (skip.andThen fun _ => optionalExpression hn)).bind fun _ hv =>
    node (by nofun) hv

lemma dimStatement (hn : n.Spaces tokens) : GivesTree tokens (Parser.dimStatement n) :=
  advance.andThen fun _ => expectIdentifier.andThen fun _ => expect.andThen fun _ =>
    (commaList (.pure trivial) hn.expression).bind fun _ hv => expect.andThen fun _ =>
      node (by nofun) hv

lemma whileLoop (hn : n.Spaces tokens) : GivesTree tokens (Parser.whileLoop n) :=
  advance.andThen fun _ => hn.expression.bind fun _ hc => (block hn).bind fun _ hb =>
    expectEnd.andThen fun _ => node (by nofun) (by simp [Form.children, hc, hb])

lemma expectForEnd : Passes tokens Parser.expectForEnd :=
  ofParses Parses.expectForEnd

lemma forEachRest {keyword : Token} (hn : n.Spaces tokens) :
    GivesTree tokens (Parser.forEachRest n keyword) :=
  expectIdentifier.andThen fun _ => expect.andThen fun _ => hn.expression.bind fun _ ht =>
    (block hn).bind fun _ hb => expectForEnd.andThen fun _ =>
      node (by nofun) (by simp [Form.children, ht, hb])

lemma forRest {keyword : Token} (hn : n.Spaces tokens) :
    GivesTree tokens (Parser.forRest n keyword) := by
  refine expectIdentifier.andThen fun _ => expect.andThen fun _ => hn.expression.bind fun _ hi => ?_
  refine (node (by nofun) ?_).bind fun counter hcounter => ?_
  · exact List.forall_mem_singleton.2 hi
  refine expect.andThen fun _ => hn.expression.bind fun final hf => ?_
  refine (after hn.expression).bind fun step hs => (block hn).bind fun body hb => ?_
  refine expectForEnd.andThen fun _ => node (by nofun) ?_
  simpa [Form.children, hcounter, hf, hb, or_imp, forall_and] using hs

lemma forLoop (hn : n.Spaces tokens) : GivesTree tokens (Parser.forLoop n) := by
  refine advance.andThen fun keyword => accept.andThen fun each => ?_
  cases each with
  | none => exact forRest hn
  | some each => exact forEachRest hn

lemma optionalCatch (hn : n.Spaces tokens) : GivesOption tokens (Parser.optionalCatch n) := by
  refine accept.andThen fun keyword => ?_
  cases keyword with
  | none => exact .pureNone
  | some keyword =>
    exact (accept.andThen fun _ => (block hn).bind fun _ hb =>
      node (by nofun) (by simpa [Form.children] using hb)).mapSome

lemma tryStatement (hn : n.Spaces tokens) : GivesTree tokens (Parser.tryStatement n) :=
  advance.andThen fun _ => (block hn).bind fun _ hb => (optionalCatch hn).bind fun _ hc =>
    expectEnd.andThen fun _ => node (by nofun) (by simpa [Form.children, hb] using hc)

lemma typecast (hn : n.Spaces tokens) : GivesTree tokens (Parser.typecast n) :=
  advance.andThen fun _ => hn.expression.bind fun _ hv => expect.andThen fun _ =>
    typeName.andThen fun _ => node (by nofun) (by simpa [Form.children] using hv)

lemma expressionStatement (hn : n.Spaces tokens) :
    GivesTree tokens (Parser.expressionStatement n) := by
  refine (accessed hn).bind fun target ht => acceptIf.andThen fun operator => ?_
  cases operator with
  | some operator =>
    refine hn.expression.bind fun value hv => ?_
    cases ha : assignment? target operator value with
    | some statement => exact changeStore.andThen fun _ => .pure (ht.assignment hv ha)
    | none => exact .refuseAt
  | none =>
    refine acceptIf.andThen fun operator => ?_
    cases operator with
    | some operator => exact node (by nofun) (List.forall_mem_singleton.2 ht)
    | none => exact node (by nofun) (List.forall_mem_singleton.2 ht)

lemma keywordStatement {word : Keyword} (hn : n.Spaces tokens) :
    GivesTree tokens (Parser.keywordStatement n word) := by
  unfold Parser.keywordStatement
  split
  · exact followingKind.andThen fun _ =>
      .ite (fun _ => functionDeclaration hn) fun _ => expressionStatement hn
  · exact followingKind.andThen fun _ =>
      .ite (fun _ => functionDeclaration hn) fun _ => expressionStatement hn
  · exact namespaceDeclaration hn
  · exact classDeclaration hn
  · exact interfaceDeclaration
  · exact enumDeclaration hn
  · exact namedValue hn (fun _ _ _ => nofun) fun _ _ _ => rfl
  · exact importStatement
  · exact library
  · exact ifStatement hn
  · exact whileLoop hn
  · exact forLoop hn
  · exact withOptionalToken (fun _ _ => nofun) fun _ _ => rfl
  · exact withOptionalToken (fun _ _ => nofun) fun _ _ => rfl
  · exact returnStatement hn
  · exact dimStatement hn
  · exact tryStatement hn
  · exact throwStatement hn
  · exact printStatement hn
  · exact single (fun _ => nofun) fun _ => rfl
  · exact typecast hn
  · exact namedValue hn (fun _ _ _ => nofun) fun _ _ _ => rfl
  · exact followingKind.andThen fun _ =>
      Gives.ite (fun _ => single (fun _ => nofun) fun _ => rfl) fun _ => refuse
  -- The words that end a block are refused, and what is left starts an expression.
  all_goals first
    | exact refuse
    | exact expressionStatement hn

lemma statement (hn : n.Spaces tokens) : GivesTree tokens (Parser.statement n) := by
  refine kind.andThen fun k => ?_
  split
  · exact comment
  · exact keywordStatement hn
  · exact printStatement hn
  · exact namedValue hn (fun _ _ _ => nofun) fun _ _ _ => rfl
  · exact conditionalBlock hn
  · exact single (fun _ => nofun) fun _ => rfl
  · exact expressionStatement hn

end Gives

/-- A statement that starts with a comment is one. -/
lemma Parser.statement_comment {n : Nested} {s u : Reading} {t : NumberedTree}
    (hk : s.current.kind = .comment) (h : Parser.statement n s = .ok t u) :
    t.kind.isComment = true := by
  obtain ⟨k, v, hv, h⟩ := bind_eq_ok.1 h
  obtain ⟨rfl, rfl⟩ := kind_eq_ok.1 hv
  rw [hk] at h
  obtain ⟨token, w, -, h⟩ := bind_eq_ok.1 h
  obtain ⟨rfl, -⟩ := node_eq_ok.1 h
  rfl

/-- The productions for every depth answer spaced trees. -/
theorem spaces_nestedWithin {tokens : List Token} {p q : Position}
    (hb : Range.Between p (tokens.map Token.range) q) (depth : Nat) :
    (nestedWithin depth).Spaces tokens := by
  induction depth with
  | zero =>
    exact ⟨⟨p, q, hb⟩, sound_nestedWithin 0, .refuseFor, .refuseFor,
      fun _ h => absurd h not_refuseFor_eq_ok⟩
  | succ depth ih =>
    exact ⟨⟨p, q, hb⟩, sound_nestedWithin (depth + 1), .expression ih, .statement ih,
      statement_comment⟩

end BrighterCheck
