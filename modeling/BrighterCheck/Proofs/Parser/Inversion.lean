import BrighterCheck.Proofs.Parser.Grammar

/-!
# Inversion of productions

Some places are filled by one production only: a body, an arm, the definition of a name and the call
behind `new`. What stands in such a place is what that production makes.
-/

namespace BrighterCheck

open BrighterCheck.Parser Item

variable {kind : NodeKind} {range : Option Range} {items : List Item}

/-- A body covers its statements. -/
theorem Production.body_inv (h : Production .body kind range items) :
    kind = .body ∧ range = Range.bounding ((nodes items).map Tree.range) ∧
      Listed .statement isSeparator items := by
  cases h with
  | body hl => exact ⟨rfl, rfl, hl⟩
  -- Three productions stand in more than one place, none of which is that of a body.
  | comment h => rcases h with h | h <;> cases h
  | functionExpression h => rcases Category.eq_of_ofFunction h with h | ⟨_, h⟩ <;> cases h
  | call h => rcases h with h | h <;> cases h

/-- An arm starts with its word and its condition. -/
theorem Production.arm_inv {form : ArmForm} {word : TokenKind}
    (h : Production (.arm form word) kind range items) :
    ∃ (k : Token) (condition b : NumberedTree) (thens : List Token) (other : Option NumberedTree)
      (others : List Item), k.kind = word ∧ Others form other others ∧ kind = form.kind k ∧
        range = form.range k condition b other ∧
        items = .token k :: .node .expression condition :: tokens thens ++
          .node .body b :: others := by
  cases h with
  | arm _ _ ho => exact ⟨_, _, _, _, _, _, rfl, ho, rfl, rfl, rfl⟩
  | comment h => rcases h with h | h <;> cases h
  | functionExpression h => rcases Category.eq_of_ofFunction h with h | ⟨_, h⟩ <;> cases h
  | call h => rcases h with h | h <;> cases h

/-- A definition is a function expression with the name. -/
theorem Production.definition_inv {name : Token}
    (h : Production (.definition name) kind range items) :
    (∃ keyword returns, kind = .functionExpression keyword returns) ∧ .token name ∈ items := by
  cases h with
  | @functionExpression _ _ _ _ _ _ _ _ _ _ name' h =>
    cases name' with
    | none => cases h
    | some =>
      cases h
      exact ⟨⟨_, _, rfl⟩, .tail _ (.head _)⟩
  | comment h => rcases h with h | h <;> cases h
  | call h => rcases h with h | h <;> cases h

/-- The call behind `new` ends with its closing token. -/
theorem Production.construction_inv {close : Token}
    (h : Production (.construction close) kind range items) :
    ∃ (callee : NumberedTree) (opening : Token) (inside : List Item),
      range = Range.bounding [callee.range, some close.range] ∧
      items = .node .expression callee :: .token opening :: (inside ++ [.token close]) := by
  cases h with
  | call h =>
    rcases h with h | h <;> cases h
    exact ⟨_, _, _, rfl, rfl⟩
  | comment h => rcases h with h | h <;> cases h
  | functionExpression h => rcases Category.eq_of_ofFunction h with h | ⟨_, h⟩ <;> cases h

end BrighterCheck
