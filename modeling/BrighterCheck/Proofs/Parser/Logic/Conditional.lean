import BrighterCheck.Proofs.Parser.Logic.Expression
import BrighterCheck.Parser.Conditional

/-!
# Runs of conditionals

Every arm behind the first one takes the token in front of it, so a chain of arms ends.
-/

namespace BrighterCheck

open BrighterCheck.Parser

/-- Two styles of one form, whose parts end. -/
structure StyleEnds (L : RunLogic) (b : Nat) (style style' : ArmStyle) : Prop where
  otherwise_eq : style'.otherwise = style.otherwise
  ne_eof : style.otherwise ≠ .eof
  condition : Ends L b style.condition style'.condition
  branch : Ends L b style.branch style'.branch
  last : Ends L b style.last style'.last
  build : ∀ arm other, Ends L b (style.build arm other) (style'.build arm other)

namespace EndsFrom

variable {n n' : Nested} {L : RunLogic} {b : Nat} {k : TokenKind} {style style' : ArmStyle}

lemma laterArms (h : StyleEnds L b style style') :
    Ends L b (Parser.laterArms style) (Parser.laterArms style') := by
  refine iterate ?_ _
  rintro ⟨arms, last⟩
  rw [h.otherwise_eq]
  refine .ite (fun _ => .pure nofun) fun _ => ?_
  refine acceptOr (decide_eq_false h.ne_eof.symm) (fun otherwise => ?_) (.pure nofun)
  -- Behind the mark stands another arm or the last branch.
  refine acceptOr rfl (fun keyword => ?_) (h.last.bind fun _ => .pure nofun)
  exact h.condition.bind fun _ => h.branch.bind fun _ => .pure nofun

lemma foldArms {arms : List Arm} {last : Option NumberedTree} (h : StyleEnds L b style style') :
    Ends L b (arms.foldlM (fun other arm => some <$> style.build arm other) last)
      (arms.foldlM (fun other arm => some <$> style'.build arm other) last) := by
  induction arms generalizing last with
  | nil => exact .pure nofun
  | cons arm arms ih =>
    rw [List.foldlM_cons, List.foldlM_cons]
    exact (h.build arm last).mapAny.bind fun other => ih

lemma armChain {keyword : Token} {condition : NumberedTree} (h : StyleEnds L b style style') :
    Ends L b (Parser.armChain style keyword condition)
      (Parser.armChain style' keyword condition) :=
  h.branch.bind fun _ => (laterArms h).bind fun _ => (foldArms h).bind fun _ => h.build _ _

lemma condition (hn : n.Ends L b n') : Ends L b (Parser.condition n) (Parser.condition n') :=
  hn.expression.bind fun _ => (accept (by nofun)).bind fun _ => .pure nofun

/-- Every statement on the line of a condition stands behind a colon. -/
lemma inlineBody (hn : n.Ends L b n') :
    Ends L b (Parser.inlineBody n) (Parser.inlineBody n') := by
  refine hn.statement.bind fun first => (many ?_).bind fun more => node
  refine acceptOr rfl (fun colon => onKind fun k => ?_) (.pure nofun)
  exact .ite (fun _ => .pure nofun) fun _ => hn.statement.mapAny.ofAny

lemma blockStyle (hn : n.Ends L b n') :
    StyleEnds L b (Parser.blockStyle n) (Parser.blockStyle n') where
  otherwise_eq := rfl
  ne_eof := nofun
  condition := condition hn
  branch := block hn
  last := block hn
  build _ _ := node

lemma inlineStyle (hn : n.Ends L b n') :
    StyleEnds L b (Parser.inlineStyle n) (Parser.inlineStyle n') where
  otherwise_eq := rfl
  ne_eof := nofun
  condition := condition hn
  branch := inlineBody hn
  last := inlineBody hn
  build _ _ := node

lemma conditionalStyle (hn : n.Ends L b n') :
    StyleEnds L b (Parser.conditionalStyle n) (Parser.conditionalStyle n') where
  otherwise_eq := rfl
  ne_eof := nofun
  condition := hn.expression.ends
  branch := block hn
  last := block hn
  build _ _ := node

lemma ifStatement (hn : n.Ends L b n') (hk : k ≠ .eof) :
    EndsAt L k (b + 1) (Parser.ifStatement n) (Parser.ifStatement n') := by
  refine (advance hk).bindTaking fun keyword => (condition hn).bind fun condition => ?_
  refine onKind fun k => .ite (fun _ => ofAny ?_) fun _ => (armChain (inlineStyle hn)).ofAny
  exact (armChain (blockStyle hn)).bind fun chain => expectEnd.bind fun finish => extend

lemma expectConditionalEnd :
    Ends L b Parser.expectConditionalEnd Parser.expectConditionalEnd :=
  acceptOr rfl (fun _ => .pure nofun)
    (isAtEnding.bind fun _ => .ite (fun _ => advanceTwo) fun _ => .refuseFor)

lemma conditionalBlock (hn : n.Ends L b n') (hk : k ≠ .eof) :
    EndsAt L k (b + 1) (Parser.conditionalBlock n) (Parser.conditionalBlock n') :=
  (advance hk).bindTaking fun _ => hn.expression.bind fun _ =>
    (armChain (conditionalStyle hn)).bind fun _ => expectConditionalEnd.bind fun _ => extend

end EndsFrom

end BrighterCheck
