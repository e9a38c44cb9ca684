import BrighterCheck.Proofs.Parser.Passage.Expression
import BrighterCheck.Parser.Conditional

/-!
# Conditionals in both sources

A conditional on one line can be the last thing of a source, so its branches are carried strictly;
those of the other forms need an end.
-/

namespace BrighterCheck.Passage

open BrighterCheck.Parser

variable {P : Passage} {n n' : Nested} {lax : Prop} {style style' : ArmStyle}

/-- An arm with relabelled parts. -/
def onArm (P : Passage) (arm : Arm) : Arm :=
  ⟨P.relabel.token arm.keyword, P.relabel.tree arm.condition, P.relabel.tree arm.branch⟩

/-- A style whose parts are carried over. -/
structure OnStyle (P : Passage) (lax : Prop) (style style' : ArmStyle) : Prop where
  otherwise_eq : style'.otherwise = style.otherwise
  ne_eof : style.otherwise ≠ .eof
  ne_newline : style.otherwise ≠ .newline
  condition : P.Carries lax P.OnTree style.condition style'.condition
  branch : P.Carries lax P.OnTree style.branch style'.branch
  last : P.Carries lax P.OnTree style.last style'.last
  build : ∀ arm other, P.Carries lax P.OnTree (style.build arm other)
    (style'.build (P.onArm arm) (other.map P.relabel.tree))

namespace CarriesFrom

lemma laterArms (h : P.OnStyle lax style style') :
    P.Carries lax (fun p p' => p' = (p.1.map P.onArm, p.2.map P.relabel.tree))
      (Parser.laterArms style) (Parser.laterArms style') := by
  refine .iterate ?_ rfl
  rintro ⟨arms, last⟩ _ rfl
  cases last with
  | some last => exact .pure .none
  | none =>
    rw [h.otherwise_eq]
    refine (accept h.ne_eof h.ne_newline).bind ?_
    rintro (_ | otherwise) _ ⟨rfl, -⟩
    · exact .pure .none
    · refine (accept (by nofun) (by nofun)).bind ?_
      rintro (_ | keyword) _ ⟨rfl, -⟩
      · refine h.last.bind ?_
        rintro last _ rfl
        exact .pure (.some rfl)
      · refine h.condition.bind ?_
        rintro condition _ rfl
        refine h.branch.bind ?_
        rintro branch _ rfl
        exact .pure (.some rfl)

lemma foldArms {arms : List Arm} {last : Option NumberedTree} (h : P.OnStyle lax style style') :
    P.Carries lax (fun o o' => o' = o.map P.relabel.tree)
      (arms.foldlM (fun other arm => some <$> style.build arm other) last)
      ((arms.map P.onArm).foldlM (fun other arm => some <$> style'.build arm other)
        (last.map P.relabel.tree)) := by
  induction arms generalizing last with
  | nil => exact .pure rfl
  | cons arm arms ih =>
    rw [List.map_cons, List.foldlM_cons, List.foldlM_cons]
    refine CarriesFrom.bind (R := fun o o' => o' = o.map P.relabel.tree) ?_ ?_
    · refine (h.build arm last).map ?_
      rintro t _ rfl
      rfl
    · rintro other _ rfl
      exact ih

lemma armChain {keyword : Token} {condition : NumberedTree} (h : P.OnStyle lax style style') :
    P.Carries lax P.OnTree (Parser.armChain style keyword condition)
      (Parser.armChain style' (P.relabel.token keyword) (P.relabel.tree condition)) := by
  refine h.branch.bind ?_
  rintro branch _ rfl
  refine (laterArms h).bind ?_
  rintro ⟨arms, last⟩ _ rfl
  refine (foldArms h).bind ?_
  rintro other _ rfl
  exact h.build ⟨keyword, condition, branch⟩ other

end CarriesFrom

lemma TakesFrom.condition (hn : P.OnNested n n') :
    P.Takes P.OnTree (Parser.condition n) (Parser.condition n') := by
  refine hn.expression.bind ?_
  rintro condition _ rfl
  refine (CarriesFrom.accept (by nofun) (by nofun)).bind fun _ _ _ => ?_
  exact .pure rfl

lemma TakesFrom.inlineBody (hn : P.OnNested n n') :
    P.Takes P.OnTree (Parser.inlineBody n) (Parser.inlineBody n') := by
  refine hn.statement.bind ?_
  rintro first _ rfl
  refine CarriesFrom.bind (R := P.OnTrees) (.many ?_) ?_
  · refine (CarriesFrom.accept (by nofun) (by nofun)).bind ?_
    rintro (_ | colon) _ ⟨rfl, -⟩
    · exact .pure rfl
    · refine .onTest rfl (.pure rfl) (hn.statement.carries.map ?_)
      rintro t _ rfl
      rfl
  · rintro more _ rfl
    exact .node rfl (by simp) rfl

lemma onStyle_block (hn : P.OnNested n n') :
    P.OnStyle True (blockStyle n) (blockStyle n') where
  otherwise_eq := rfl
  ne_eof := nofun
  ne_newline := nofun
  condition := (TakesFrom.condition hn).carries
  branch := .block hn ((isBlind_block .ifKw).orAt (.keyword .elseKw))
  last := .block hn (isBlind_block .ifKw)
  build _ other := .node rfl (by cases other <;> simp [onArm]) (by cases other <;> rfl)

lemma onStyle_inline (hn : P.OnNested n n') :
    P.OnStyle False (inlineStyle n) (inlineStyle n') where
  otherwise_eq := rfl
  ne_eof := nofun
  ne_newline := nofun
  condition := (TakesFrom.condition hn).carries
  branch := (TakesFrom.inlineBody hn).carries
  last := (TakesFrom.inlineBody hn).carries
  build _ other := .node rfl (by cases other <;> simp [onArm]) (by cases other <;> rfl)

lemma onStyle_conditional (hn : P.OnNested n n') :
    P.OnStyle True (conditionalStyle n) (conditionalStyle n') where
  otherwise_eq := rfl
  ne_eof := nofun
  ne_newline := nofun
  condition := hn.expression.carries
  branch := .block hn (isBlind_conditional.orAt (.directive .elseDirective))
  last := .block hn isBlind_conditional
  build _ other := .node rfl (by cases other <;> simp [onArm]) (by cases other <;> rfl)

/-- A node with its end. -/
lemma TakesFrom.closed {m m' : Parser NumberedTree} {finish finish' : Parser Range}
    (hm : P.Carries True P.OnTree m m')
    (hfinish : P.Takes (fun r r' => r' = P.relabel.range r) finish finish') :
    P.Takes P.OnTree (do extend (← m) (← finish)) (do extend (← m') (← finish')) := by
  refine .after hm ?_
  rintro node _ rfl
  refine hfinish.bind ?_
  rintro r _ rfl
  exact .extend rfl rfl

lemma TakesFrom.ifStatement (hn : P.OnNested n n') :
    P.TakesAt (.keyword .ifKw) P.OnTree (Parser.ifStatement n) (Parser.ifStatement n') := by
  refine advanceRest (by nofun) fun keyword _ => ?_
  refine (condition hn).carries.bind ?_
  rintro condition _ rfl
  refine .onTest rfl ?_ ?_
  · exact (closed (.armChain (onStyle_block hn)) .expectEnd).carries
  · exact .armChain (onStyle_inline hn)

lemma TakesFrom.expectConditionalEnd :
    P.Takes (fun r r' => r' = P.relabel.range r) Parser.expectConditionalEnd
      Parser.expectConditionalEnd := by
  refine acceptIf rfl (fun joined _ => .pure rfl) fun k hk => ?_
  have hne : k ≠ .directive .endIf := of_decide_eq_false hk
  simp only [isAtEnding_bind]
  refine kindAt (twoWords (p := Ending.conditional k) ?_ ?_ ?_)
  · rintro rfl next
    rfl
  · simp [Ending.conditional, hne]
  · simp [Ending.conditional, hne]

lemma TakesFrom.conditionalBlock (hn : P.OnNested n n') :
    P.TakesAt (.directive .ifDirective) P.OnTree (Parser.conditionalBlock n)
      (Parser.conditionalBlock n') := by
  refine advanceRest (by nofun) fun keyword _ => ?_
  refine hn.expression.carries.bind ?_
  rintro condition _ rfl
  exact (closed (.armChain (onStyle_conditional hn)) .expectConditionalEnd).carries

end BrighterCheck.Passage
