import BrighterCheck.Tree.Kind

/-!
# Syntax trees

A syntax tree is a rose tree: a node has a kind, the range it covers unless it is an empty body, and
its children in source order. In the tree of a file every node carries its number, by which symbol
tables and references name it.
-/

namespace BrighterCheck

/-- A syntax tree whose nodes carry an identity of type `ι`. -/
structure Tree (ι : Type) where
  id : ι
  kind : NodeKind
  range : Option Range
  children : List (Tree ι)

/-- A tree whose nodes carry their numbers. -/
abbrev NumberedTree := Tree Nat

namespace Tree

variable {ι : Type}

/-- What holds of every node whose children it holds of, holds of all trees. -/
theorem induction {P : Tree ι → Prop} (node : ∀ t, (∀ u ∈ t.children, P u) → P t) (t : Tree ι) :
    P t :=
  t.rec (motive_2 := fun ts => ∀ u ∈ ts, P u) (fun _ _ _ _ ih => node _ ih) nofun
    fun _ _ ht hts u hu => (List.mem_cons.1 hu).elim (· ▸ ht) (hts u)

/-- The same node, grown to cover `range` too. -/
def extend (t : Tree ι) (range : Range) : Tree ι :=
  { t with range := Range.bounding [t.range, some range] }

mutual

/-- The number of nodes of a tree. -/
def size : Tree ι → Nat
  | ⟨_, _, _, children⟩ => sizeAll children + 1

/-- The number of nodes of several trees. -/
def sizeAll : List (Tree ι) → Nat
  | [] => 0
  | t :: ts => t.size + sizeAll ts

end

mutual

/-- The nodes of a tree, each before its children. -/
def preorder : Tree ι → List (Tree ι)
  | ⟨id, kind, range, children⟩ => ⟨id, kind, range, children⟩ :: preorderAll children

/-- The nodes of several trees, one tree after the other. -/
def preorderAll : List (Tree ι) → List (Tree ι)
  | [] => []
  | t :: ts => t.preorder ++ preorderAll ts

end

/-- The nodes of a list of trees are those of its parts. -/
theorem preorderAll_append (ts us : List (Tree ι)) :
    preorderAll (ts ++ us) = preorderAll ts ++ preorderAll us := by
  induction ts with
  | nil => rfl
  | cons t ts ih => simp [preorderAll, ih]

@[simp]
theorem preorderAll_singleton (t : Tree ι) : preorderAll [t] = t.preorder := by
  simp [preorderAll]

/-- The name that an identifier, or a chain of dotted accesses to one, spells. -/
def dottedName? : Tree ι → Option String
  | ⟨_, .name t, _, _⟩ => some t.text
  | ⟨_, .dottedGet _ t, _, object :: _⟩ => object.dottedName?.map (· ++ "." ++ t.text)
  | _ => none

/-- The first token of an identifier, or of a chain of dotted accesses to one. -/
def leadingName? : Tree ι → Option Token
  | ⟨_, .name t, _, _⟩ => some t
  | ⟨_, .dottedGet .., _, object :: _⟩ => object.leadingName?
  | _ => none

/-- The token of a literal, which may stand behind one sign. -/
def literal? (t : Tree ι) : Option (Token × Tree ι) :=
  let target := match t.kind, t.children with
    | .unary _, operand :: _ => operand
    | _, _ => t
  match target.kind with
  | .literal token => some (token, target)
  | _ => none

end Tree

end BrighterCheck
