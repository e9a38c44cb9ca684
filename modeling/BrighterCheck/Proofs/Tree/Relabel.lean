import BrighterCheck.Lexer.Cursor
import BrighterCheck.Parser.Basic
import BrighterCheck.Proofs.Text.Range
import BrighterCheck.Proofs.Tree.Located

/-!
# Relabelling

Two sources can differ in the texts, the places and the numbers of what they hold and still have the
same shape. A `Relabel` says how these look in the other source, for tokens, for nodes and for
errors.
-/

namespace BrighterCheck

/-- How texts, ranges and numbers of one source look in another one. -/
structure Relabel where
  text : TokenKind → String → String
  range : Range → Range
  shift : Nat
  /-- A keyword can be used as a name. -/
  text_name : ∀ k s, k.isNameLike = true → text k s = text .identifier s
  text_dotted : ∀ s t,
    text .identifier (s ++ "." ++ t) = text .identifier s ++ "." ++ text .identifier t
  text_forEach : ∀ s t, text .forEach (s ++ " " ++ t) =
    text (.keyword .forKw) s ++ " " ++ text (.keyword .eachKw) t
  range_merge : ∀ r s, range (r.merge s) = (range r).merge (range s)

namespace Relabel

attribute [simp] range_merge

lemma id_merge (r s : Range) : id (r.merge s) = (id r).merge (id s) :=
  rfl

variable (r : Relabel)

def token (t : Token) : Token :=
  ⟨t.kind, r.text t.kind t.text, r.range t.range⟩

def parameter (p : InterfaceParameter) : InterfaceParameter :=
  ⟨r.token p.name, p.type.map r.token⟩

/-- The same kind with other tokens. -/
def kind : NodeKind → NodeKind
  | .body => .body
  | .comment t => .comment (r.token t)
  | .assignment t u => .assignment (r.token t) (r.token u)
  | .counter t u => .counter (r.token t) (r.token u)
  | .dottedSet t u v => .dottedSet (r.token t) (r.token u) (r.token v)
  | .indexedSet o t u v => .indexedSet (o.map r.token) (r.token t) (r.token u) (r.token v)
  | .increment t => .increment (r.token t)
  | .expressionStatement => .expressionStatement
  | .print t => .print (r.token t)
  | .ifStatement t => .ifStatement (r.token t)
  | .whileLoop t => .whileLoop (r.token t)
  | .forLoop t => .forLoop (r.token t)
  | .forEachLoop t u => .forEachLoop (r.token t) (r.token u)
  | .exitLoop t o => .exitLoop (r.token t) (o.map r.token)
  | .continueLoop t o => .continueLoop (r.token t) (o.map r.token)
  | .returnStatement t => .returnStatement (r.token t)
  | .dim t u => .dim (r.token t) (r.token u)
  | .tryStatement t => .tryStatement (r.token t)
  | .catchClause t o => .catchClause (r.token t) (o.map r.token)
  | .throwStatement t => .throwStatement (r.token t)
  | .stopStatement t => .stopStatement (r.token t)
  | .endStatement t => .endStatement (r.token t)
  | .function t => .function (r.token t)
  | .method o p t => .method (o.map r.token) (p.map r.token) (r.token t)
  | .field o t p => .field (o.map r.token) (r.token t) (p.map r.token)
  | .classDeclaration t u o => .classDeclaration (r.token t) (r.token u) (o.map r.token)
  | .namespaceDeclaration t => .namespaceDeclaration (r.token t)
  | .interfaceDeclaration t u o => .interfaceDeclaration (r.token t) (r.token u) (o.map r.token)
  | .interfaceField t o => .interfaceField (r.token t) (o.map r.token)
  | .interfaceMethod t u ps o =>
    .interfaceMethod (r.token t) (r.token u) (ps.map r.parameter) (o.map r.token)
  | .enumDeclaration t u => .enumDeclaration (r.token t) (r.token u)
  | .enumMember t => .enumMember (r.token t)
  | .constDeclaration t u => .constDeclaration (r.token t) (r.token u)
  | .library t o => .library (r.token t) (o.map r.token)
  | .importStatement t o => .importStatement (r.token t) (o.map r.token)
  | .conditionalConst t u => .conditionalConst (r.token t) (r.token u)
  | .conditionalError t => .conditionalError (r.token t)
  | .conditionalBlock t => .conditionalBlock (r.token t)
  | .typecast t u => .typecast (r.token t) (r.token u)
  | .aliasDeclaration t u => .aliasDeclaration (r.token t) (r.token u)
  | .literal t => .literal (r.token t)
  | .name t => .name (r.token t)
  | .unary t => .unary (r.token t)
  | .binary t => .binary (r.token t)
  | .grouping => .grouping
  | .dottedGet t u => .dottedGet (r.token t) (r.token u)
  | .indexedGet o t u => .indexedGet (o.map r.token) (r.token t) (r.token u)
  | .call => .call
  | .callfunc t u => .callfunc (r.token t) (r.token u)
  | .new t => .new (r.token t)
  | .array => .array
  | .record => .record
  | .recordMember t => .recordMember (r.token t)
  | .functionExpression t o => .functionExpression (r.token t) (o.map r.token)
  | .parameter t o => .parameter (r.token t) (o.map r.token)

mutual

def tree : NumberedTree → NumberedTree
  | ⟨id, kind, range, children⟩ =>
    ⟨id + r.shift, r.kind kind, range.map r.range, treeAll children⟩

def treeAll : List NumberedTree → List NumberedTree
  | [] => []
  | t :: ts => tree t :: treeAll ts

end

def stream (s : TokenStream) : TokenStream :=
  ⟨s.tokens.map r.token, r.token s.eof⟩

def fault : SyntaxFault → SyntaxFault
  | .expected what found => .expected what found
  | .unexpected text => .unexpected (r.text .identifier text)
  | .notAssignable => .notAssignable

def error (e : SyntaxError) : SyntaxError :=
  ⟨r.fault e.fault, r.range e.range⟩

def references (refs : References) : References :=
  ⟨refs.libraries.map (· + r.shift), refs.imports.map (· + r.shift)⟩

@[simp] lemma token_kind (t : Token) : (r.token t).kind = t.kind := rfl

@[simp] lemma token_range (t : Token) : (r.token t).range = r.range t.range := rfl

lemma token_asIdentifier {t : Token} (h : t.kind.isNameLike = true) :
    r.token t.asIdentifier = (r.token t).asIdentifier := by
  have htext := r.text_name t.kind t.text h
  simp [token, Token.asIdentifier, htext]

lemma token_dotted {t u : Token} (ht : t.kind = .identifier) (hu : u.kind = .identifier) :
    r.token (.join .identifier "." t u) = .join .identifier "." (r.token t) (r.token u) := by
  simp only [token, Token.join, ht, hu, r.text_dotted, r.range_merge]

lemma token_forEach {t u : Token} (ht : t.kind = .keyword .forKw)
    (hu : u.kind = .keyword .eachKw) :
    r.token (.join .forEach " " t u) = .join .forEach " " (r.token t) (r.token u) := by
  simp only [token, Token.join, ht, hu, r.text_forEach, r.range_merge]

@[simp] lemma treeAll_eq_map (ts : List NumberedTree) : r.treeAll ts = ts.map r.tree := by
  induction ts with
  | nil => rfl
  | cons t ts ih => rw [treeAll, ih, List.map_cons]

lemma tree_mk (t : NumberedTree) :
    r.tree t = ⟨t.id + r.shift, r.kind t.kind, t.range.map r.range, t.children.map r.tree⟩ := by
  cases t with
  | mk id kind range children => rw [tree, treeAll_eq_map]

@[simp] lemma tree_id (t : NumberedTree) : (r.tree t).id = t.id + r.shift := by
  rw [tree_mk]

@[simp] lemma tree_kind (t : NumberedTree) : (r.tree t).kind = r.kind t.kind := by
  rw [tree_mk]

@[simp] lemma tree_range (t : NumberedTree) : (r.tree t).range = t.range.map r.range := by
  rw [tree_mk]

@[simp] lemma tree_children (t : NumberedTree) :
    (r.tree t).children = t.children.map r.tree := by
  rw [tree_mk]

@[simp] lemma range_comp_tree : Tree.range ∘ r.tree = Option.map r.range ∘ Tree.range :=
  funext r.tree_range

@[simp] lemma range_comp_token : Token.range ∘ r.token = r.range ∘ Token.range := rfl

@[simp] lemma map_merge (o p : Option Range) :
    (Option.merge Range.merge o p).map r.range =
      Option.merge Range.merge (o.map r.range) (p.map r.range) := by
  cases o <;> cases p <;> simp

/-- The bounding range of relabelled ranges is the relabelled bounding range. -/
@[simp] lemma map_bounding (rs : List (Option Range)) :
    (Range.bounding rs).map r.range = Range.bounding (rs.map (Option.map r.range)) := by
  have key : ∀ o : Option Range, (rs.foldl (Option.merge Range.merge) o).map r.range =
      (rs.map (Option.map r.range)).foldl (Option.merge Range.merge) (o.map r.range) := by
    induction rs with
    | nil => exact fun _ => rfl
    | cons p rs ih =>
      intro o
      rw [List.foldl_cons, ih, map_merge]
      rfl
  exact key none

lemma tree_extend (t : NumberedTree) (range : Range) :
    r.tree (t.extend range) = (r.tree t).extend (r.range range) := by
  simp [Tree.extend, tree_mk]

def located (l : Located Nat) : Located Nat :=
  ⟨r.tree l.node, l.ancestors.map r.tree⟩

lemma locatedBelow_tree (above : List NumberedTree) (t : NumberedTree) :
    Tree.locatedBelow (above.map r.tree) (r.tree t) =
      (Tree.locatedBelow above t).map r.located := by
  induction t using Tree.induction generalizing above with
  | node t ih =>
    have hchildren : t.children.flatMap (fun u =>
        Tree.locatedBelow ((t :: above).map r.tree) (r.tree u)) =
          t.children.flatMap (fun u => (Tree.locatedBelow (t :: above) u).map r.located) :=
      List.flatMap_congr fun u hu => ih u hu (t :: above)
    rw [Tree.locatedBelow_eq, Tree.locatedBelow_eq t, tree_children, List.flatMap_map,
      List.map_cons, List.map_flatMap, ← hchildren]
    rfl

/-- The nodes of a relabelled tree are the relabelled nodes, each in its place. -/
lemma located_tree (t : NumberedTree) : (r.tree t).located = t.located.map r.located :=
  r.locatedBelow_tree [] t

lemma preorder_tree (t : NumberedTree) : (r.tree t).preorder = t.preorder.map r.tree := by
  rw [← Tree.map_node_located, located_tree, List.map_map, ← Tree.map_node_located, List.map_map]
  rfl

/-- Texts look different, but all ranges and numbers are the same. -/
structure InPlace (r : Relabel) : Prop where
  range_eq : r.range = id
  shift_eq : r.shift = 0

namespace InPlace

variable {r : Relabel} (h : r.InPlace)

include h

lemma token_range (t : Token) : (r.token t).range = t.range :=
  congrFun h.range_eq t.range

lemma tree_range (t : NumberedTree) : (r.tree t).range = t.range := by
  rw [Relabel.tree_range, h.range_eq]
  exact congrFun Option.map_id t.range

lemma tree_id (t : NumberedTree) : (r.tree t).id = t.id := by
  rw [Relabel.tree_id, h.shift_eq, Nat.add_zero]

lemma references_eq (refs : References) : r.references refs = refs := by
  have hshift : (fun n : Nat => n + r.shift) = id := by
    rw [h.shift_eq]
    rfl
  rw [Relabel.references, hshift, List.map_id, List.map_id]

end InPlace

/-- Nothing looks different. -/
def refl : Relabel where
  text _ s := s
  range r := r
  shift := 0
  text_name _ _ _ := rfl
  text_dotted _ _ := rfl
  text_forEach _ _ := rfl
  range_merge _ _ := rfl

@[simp] lemma token_refl : refl.token = id := rfl

@[simp] lemma parameter_refl : refl.parameter = id := by
  funext p
  simp [parameter]

@[simp] lemma kind_refl (k : NodeKind) : refl.kind k = k := by
  cases k <;> simp [kind]

@[simp] lemma tree_refl (t : NumberedTree) : refl.tree t = t := by
  induction t using Tree.induction with
  | node t ih =>
    obtain ⟨id, kind, range, children⟩ := t
    have hchildren : children.map refl.tree = children :=
      (List.map_congr_left ih).trans (List.map_id' _)
    have hrange : range.map refl.range = range := Option.map_id'
    rw [tree_mk, hchildren, hrange, kind_refl]
    rfl

end Relabel

end BrighterCheck
