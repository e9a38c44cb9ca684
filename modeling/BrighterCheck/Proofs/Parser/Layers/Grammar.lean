import BrighterCheck.Parser.File
import Mathlib.Tactic.Lemma

/-!
# The layered grammar of expressions

An `Expression` is an expression as it is written, with every token in its place: the brackets and
commas, which no tree keeps, the line ends and comments inside brackets, and the keywords that are
used as names. Its tokens are those of the source, and its tree is the one that stands for it.

Operators stand in layers, listed in `operatorLayers` from the loosest to the tightest. An
expression fits some layers if every operand in it is of a layer that the grammar allows in its
place.
-/

namespace BrighterCheck

open BrighterCheck.Parser

/-- Values in brackets as they are written, with blanks around the commas. -/
inductive Values (α : Type) where
  | empty
  /-- The last value, without a comma behind it. -/
  | last (value : α) (blanks : List Token)
  | more (value : α) (before : List Token) (comma : Token) (behind : List Token) (rest : Values α)

namespace Values

variable {α : Type}

/-- The values by themselves. -/
def values : Values α → List α
  | .empty => []
  | .last value _ => [value]
  | .more value _ _ _ rest => value :: rest.values

/-- There are only blanks and one comma between the values, and behind the last one. -/
def IsMarked : Values α → Prop
  | .empty => True
  | .last _ blanks => ∀ t ∈ blanks, isBlank t.kind = true
  | .more _ before comma behind rest =>
    (∀ t ∈ before, isBlank t.kind = true) ∧ comma.kind = .punctuator .comma ∧
      (∀ t ∈ behind, isBlank t.kind = true) ∧ rest.IsMarked

/-- There is a value at the end, not a comma or nothing at all. -/
def endsInValue : Values α → Bool
  | .empty => false
  | .last .. => true
  | .more _ _ _ _ rest => rest.endsInValue

end Values

/-- An operand, or operands with operators, as they are written. -/
inductive Expression where
  | name (token : Token)
  | literal (token : Token)
  | grouping (opening : Token) (before : List Token) (inner : Expression) (behind : List Token)
      (close : Token)
  | dotted (object : Expression) (dot property : Token)
  | indexed (object : Expression) (opening : Token) (blanks : List Token)
      (indexes : Values Expression) (close : Token)
  | call (callee : Expression) (opening : Token) (blanks : List Token)
      (arguments : Values Expression) (close : Token)
  | unary (operator : Token) (operand : Expression)
  | binary (left : Expression) (operator : Token) (right : Expression)

namespace Expression

mutual

/-- The tokens of an expression, in order. -/
def tokens : Expression → List Token
  | .name t | .literal t => [t]
  | .grouping opening before inner behind close =>
    opening :: (before ++ (inner.tokens ++ (behind ++ [close])))
  | .dotted object dot property => object.tokens ++ [dot, property]
  | .indexed object opening blanks vs close | .call object opening blanks vs close =>
    object.tokens ++ opening :: (blanks ++ (tokensAll vs ++ [close]))
  | .unary operator operand => operator :: operand.tokens
  | .binary left operator right => left.tokens ++ operator :: right.tokens

/-- The tokens of the values in brackets. -/
def tokensAll : Values Expression → List Token
  | .empty => []
  | .last value blanks => value.tokens ++ blanks
  | .more value before comma behind rest =>
    value.tokens ++ (before ++ comma :: (behind ++ tokensAll rest))

end

mutual

/-- The number of nodes that stand for an expression. -/
def size : Expression → Nat
  | .name _ | .literal _ => 1
  | .grouping _ _ inner _ _ => inner.size + 1
  | .dotted object _ _ => object.size + 1
  | .indexed object _ _ vs _ | .call object _ _ vs _ => object.size + sizeAll vs + 1
  | .unary _ operand => operand.size + 1
  | .binary left _ right => left.size + right.size + 1

/-- The number of nodes that stand for the values in brackets. -/
def sizeAll : Values Expression → Nat
  | .empty => 0
  | .last value _ => value.size
  | .more value _ _ _ rest => value.size + sizeAll rest

end

mutual

/-- The tree of an expression whose nodes are numbered from `n` on. -/
def tree : Expression → Nat → NumberedTree
  | .name t, n => ⟨n, .name t, some t.range, []⟩
  | .literal t, n => ⟨n, .literal t, some t.range, []⟩
  | .grouping opening _ inner _ close, n =>
    ⟨n + inner.size, .grouping, some (opening.range.merge close.range), [inner.tree n]⟩
  | .dotted object dot property, n =>
    ⟨n + object.size, .dottedGet dot property.asIdentifier,
      Range.bounding [(object.tree n).range, some property.asIdentifier.range], [object.tree n]⟩
  | .indexed object opening _ vs close, n =>
    ⟨n + object.size + sizeAll vs, .indexedGet none opening close,
      Range.bounding [(object.tree n).range, some close.range],
      object.tree n :: treeAll vs (n + object.size)⟩
  | .call callee _ _ vs close, n =>
    ⟨n + callee.size + sizeAll vs, .call,
      Range.bounding [(callee.tree n).range, some close.range],
      callee.tree n :: treeAll vs (n + callee.size)⟩
  | .unary operator operand, n =>
    ⟨n + operand.size, .unary operator,
      Range.bounding [some operator.range, (operand.tree n).range], [operand.tree n]⟩
  | .binary left operator right, n =>
    ⟨n + (left.size + right.size), .binary operator,
      Range.bounding [(left.tree n).range, (right.tree (n + left.size)).range],
      [left.tree n, right.tree (n + left.size)]⟩

/-- The trees of the values in brackets. -/
def treeAll : Values Expression → Nat → List NumberedTree
  | .empty, _ => []
  | .last value _, n => [value.tree n]
  | .more value _ _ _ rest, n => value.tree n :: treeAll rest (n + value.size)

end

mutual

/-- The rows of `a`, and behind them those of the nodes that stand for an expression. -/
def store : Expression → Store → Store
  | .name t, a => a.alloc (.name t) (some t.range)
  | .literal t, a => a.alloc (.literal t) (some t.range)
  | .grouping opening before inner behind close, a =>
    (inner.store a).alloc (.grouping (inner.tree a.size).id)
      ((Expression.grouping opening before inner behind close).tree a.size).range
  | .dotted object dot property, a =>
    (object.store a).alloc (.dottedGet (object.tree a.size).id dot property.asIdentifier)
      ((Expression.dotted object dot property).tree a.size).range
  | .indexed object opening blanks vs close, a =>
    (storeAll vs (object.store a)).alloc
      (.indexedGet (object.tree a.size).id none opening
        ((treeAll vs (a.size + object.size)).map Tree.id) close)
      ((Expression.indexed object opening blanks vs close).tree a.size).range
  | .call callee opening blanks vs close, a =>
    (storeAll vs (callee.store a)).alloc
      (.call (callee.tree a.size).id ((treeAll vs (a.size + callee.size)).map Tree.id))
      ((Expression.call callee opening blanks vs close).tree a.size).range
  | .unary operator operand, a =>
    (operand.store a).alloc (.unary operator (operand.tree a.size).id)
      ((Expression.unary operator operand).tree a.size).range
  | .binary left operator right, a =>
    (right.store (left.store a)).alloc
      (.binary (left.tree a.size).id operator (right.tree (a.size + left.size)).id)
      ((Expression.binary left operator right).tree a.size).range

/-- The same for the values in brackets. -/
def storeAll : Values Expression → Store → Store
  | .empty, a => a
  | .last value _, a => value.store a
  | .more value _ _ _ rest, a => storeAll rest (value.store a)

end

mutual

/-- There is one row for each node. -/
@[simp]
theorem size_store : (e : Expression) → (a : Store) → (e.store a).size = a.size + e.size
  | .name _, a | .literal _, a => by simp [store, size]
  | .grouping _ _ inner _ _, a => by simp [store, size, size_store inner, Nat.add_assoc]
  | .dotted object _ _, a => by simp [store, size, size_store object, Nat.add_assoc]
  | .indexed object _ _ vs _, a | .call object _ _ vs _, a => by
    simp [store, size, size_storeAll vs, size_store object, Nat.add_assoc]
  | .unary _ operand, a => by simp [store, size, size_store operand, Nat.add_assoc]
  | .binary left _ right, a => by
    simp [store, size, size_store left, size_store right, Nat.add_assoc]

@[simp]
theorem size_storeAll : (vs : Values Expression) → (a : Store) →
    (storeAll vs a).size = a.size + sizeAll vs
  | .empty, a => rfl
  | .last value _, a => size_store value a
  | .more value _ _ _ rest, a => by
    simp [storeAll, sizeAll, size_storeAll rest, size_store value, Nat.add_assoc]

end

end Expression

/-- Operators that bind equally tightly, between two operands or in front of one. -/
inductive Layer where
  | between (operators : List TokenKind)
  | before (operators : List TokenKind)

/-- The layers of operators, from the loosest to the tightest. -/
def operatorLayers : List Layer :=
  [.between [.keyword .orKw],
    .between [.keyword .andKw],
    .before [.keyword .notKw],
    .between [.punctuator .equal, .punctuator .notEqual, .punctuator .less, .punctuator .greater,
      .punctuator .lessEqual, .punctuator .greaterEqual],
    .between [.punctuator .shiftLeft, .punctuator .shiftRight],
    .between [.punctuator .plus, .punctuator .minus],
    .between [.punctuator .star, .punctuator .slash, .punctuator .backslash, .keyword .modKw],
    .between [.punctuator .caret],
    .before [.punctuator .plus, .punctuator .minus]]

/--
The expression fits the layers: it is an operand, or its outermost operator is of one of them. To
the left of an operator stands what fits the same layers, and to the right of it what fits the
tighter ones.
-/
inductive Expression.Fits : List Layer → Expression → Prop where
  | name {t : Token} : t.kind = .identifier → Fits [] (.name t)
  | literal {t : Token} : t.kind.isLiteral = true → Fits [] (.literal t)
  | grouping {opening close : Token} {before behind : List Token} {inner : Expression} :
      opening.kind = .punctuator .openParen → (∀ t ∈ before, isBlank t.kind = true) →
      Fits operatorLayers inner → (∀ t ∈ behind, isBlank t.kind = true) →
      close.kind = .punctuator .closeParen →
      Fits [] (.grouping opening before inner behind close)
  | dotted {object : Expression} {dot property : Token} : Fits [] object →
      dot.kind = .punctuator .dot → property.kind.isNameLike = true →
      Fits [] (.dotted object dot property)
  | indexed {object : Expression} {opening close : Token} {blanks : List Token}
      {vs : Values Expression} : Fits [] object → opening.kind = .punctuator .openSquare →
      (∀ t ∈ blanks, isBlank t.kind = true) → vs.IsMarked → vs.endsInValue = true →
      (∀ v ∈ vs.values, Fits operatorLayers v) → close.kind = .punctuator .closeSquare →
      Fits [] (.indexed object opening blanks vs close)
  /-- Arguments may be missing, and there may be a comma behind the last one. -/
  | call {callee : Expression} {opening close : Token} {blanks : List Token}
      {vs : Values Expression} : Fits [] callee → opening.kind = .punctuator .openParen →
      (∀ t ∈ blanks, isBlank t.kind = true) → vs.IsMarked →
      (∀ v ∈ vs.values, Fits operatorLayers v) → close.kind = .punctuator .closeParen →
      Fits [] (.call callee opening blanks vs close)
  | tighter {l : Layer} {ls : List Layer} {e : Expression} : Fits ls e → Fits (l :: ls) e
  | unary {operators : List TokenKind} {ls : List Layer} {op : Token} {e : Expression} :
      op.kind ∈ operators → Fits (.before operators :: ls) e →
      Fits (.before operators :: ls) (.unary op e)
  | binary {operators : List TokenKind} {ls : List Layer} {left right : Expression} {op : Token} :
      Fits (.between operators :: ls) left → op.kind ∈ operators → Fits ls right →
      Fits (.between operators :: ls) (.binary left op right)

namespace Parser

/-- Tokens that access something of the operand in front of them. -/
def isAccessor : TokenKind → Bool
  | .punctuator .dot | .punctuator .questionDot | .punctuator .openSquare
  | .punctuator .questionSquare | .punctuator .openParen | .punctuator .atDot => true
  | _ => false

/-- Tokens that an expression which fits the layers can start with. -/
def starts : List Layer → TokenKind → Bool
  | [], k => k = .identifier || k.isLiteral || k = .punctuator .openParen
  | .between _ :: ls, k => starts ls k
  | .before operators :: ls, k => k ∈ operators || starts ls k

/-- Tokens that continue an expression which fits the layers. -/
def continues : List Layer → TokenKind → Bool
  | [], k => isAccessor k
  | .between operators :: ls, k => k ∈ operators || continues ls k
  | .before _ :: ls, k => continues ls k

/--
The operators of each layer tell it from the tighter ones: one between operands continues nothing
tighter, and one in front of an operand starts nothing tighter.
-/
def areDistinct : List Layer → Bool
  | [] => true
  | .between operators :: ls =>
    operators.all (fun k => k ≠ .eof && !continues ls k) && areDistinct ls
  | .before operators :: ls => operators.all (fun k => k ≠ .eof && !starts ls k) && areDistinct ls

lemma areDistinct_operatorLayers : areDistinct operatorLayers = true := by
  decide

/-- The parser of the expressions that fit the layers. -/
def layered (n : Nested) : List Layer → Parser NumberedTree
  | [] => accessed n
  | .between operators :: ls => binaryLayer (· ∈ operators) (layered n ls)
  | .before operators :: ls => unaryLayer (· ∈ operators) (layered n ls)

/-- A question about kinds that only those in a list answer with yes. -/
lemma eq_decide_mem {p : TokenKind → Bool} {operators : List TokenKind}
    (h : ∀ k, p k = true ↔ k ∈ operators) : p = fun k => decide (k ∈ operators) := by
  funext k
  rw [Bool.eq_iff_iff, h, decide_eq_true_iff]

/-- Expressions are read layer by layer. -/
theorem expression_eq_layered (n : Nested) : expression n = layered n operatorLayers := by
  have hword (w : TokenKind) : (fun k => decide (k = w)) = fun k => decide (k ∈ [w]) :=
    eq_decide_mem fun k => by simp
  have hcomparison : isComparison = fun k => decide (k ∈ [.punctuator .equal,
      .punctuator .notEqual, .punctuator .less, .punctuator .greater, .punctuator .lessEqual,
      .punctuator .greaterEqual]) :=
    eq_decide_mem fun k => by unfold isComparison; split <;> simp_all
  have hshift : isShift = fun k => decide (k ∈
      [.punctuator .shiftLeft, .punctuator .shiftRight]) :=
    eq_decide_mem fun k => by unfold isShift; split <;> simp_all
  have hterm : isTerm = fun k => decide (k ∈ [.punctuator .plus, .punctuator .minus]) :=
    eq_decide_mem fun k => by unfold isTerm; split <;> simp_all
  have hfactor : isFactor = fun k => decide (k ∈ [.punctuator .star, .punctuator .slash,
      .punctuator .backslash, .keyword .modKw]) :=
    eq_decide_mem fun k => by unfold isFactor; split <;> simp_all
  have hpower : isPower = fun k => decide (k ∈ [.punctuator .caret]) :=
    eq_decide_mem fun k => by unfold isPower; split <;> simp_all
  have hsign : isSign = fun k => decide (k ∈ [.punctuator .plus, .punctuator .minus]) :=
    eq_decide_mem fun k => by unfold isSign; split <;> simp_all
  rw [expression, comparison, sum, signed, hword, hword, hword, hcomparison, hshift, hterm,
    hfactor, hpower, hsign]
  rfl

end Parser

end BrighterCheck
