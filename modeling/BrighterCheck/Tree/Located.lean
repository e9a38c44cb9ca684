import BrighterCheck.Tree.Basic

/-!
# Nodes in their place

A located node is a node together with its strict ancestors, nearest first. Questions that look
upwards are asked of located nodes: the enclosing scope, the enclosing namespaces, the nearest
ancestor of some kind. The located nodes of a tree are its nodes in pre-order (`map_node_located`).
-/

namespace BrighterCheck

/-- A node with its strict ancestors, nearest first. -/
structure Located (ι : Type) where
  node : Tree ι
  ancestors : List (Tree ι)

namespace Tree

variable {ι : Type}

mutual

/-- The nodes of a tree below `ancestors`, each before its children. -/
def locatedBelow (ancestors : List (Tree ι)) : Tree ι → List (Located ι)
  | ⟨id, kind, range, children⟩ =>
    let t := ⟨id, kind, range, children⟩
    ⟨t, ancestors⟩ :: locatedBelowAll (t :: ancestors) children

/-- The nodes of several trees below `ancestors`, one tree after the other. -/
def locatedBelowAll (ancestors : List (Tree ι)) : List (Tree ι) → List (Located ι)
  | [] => []
  | t :: ts => locatedBelow ancestors t ++ locatedBelowAll ancestors ts

end

/-- The nodes of a whole tree in pre-order, each in its place. -/
def located (t : Tree ι) : List (Located ι) :=
  locatedBelow [] t

mutual

theorem map_node_locatedBelow (above : List (Tree ι)) :
    (t : Tree ι) → (locatedBelow above t).map Located.node = t.preorder
  | ⟨id, kind, range, children⟩ => by
    simp [locatedBelow, preorder, map_node_locatedBelowAll _ children]

theorem map_node_locatedBelowAll (above : List (Tree ι)) :
    (ts : List (Tree ι)) → (locatedBelowAll above ts).map Located.node = preorderAll ts
  | [] => rfl
  | t :: ts => by
    simp [locatedBelowAll, preorderAll, map_node_locatedBelow above t,
      map_node_locatedBelowAll above ts]

end

/-- The located nodes of a tree are its nodes in pre-order. -/
theorem map_node_located (t : Tree ι) : t.located.map Located.node = t.preorder :=
  map_node_locatedBelow [] t

/-- The nodes of a numbered tree, each in its place, by number. -/
def byNumber (t : NumberedTree) : List (Located Nat) :=
  t.located.mergeSort fun a b => a.node.id ≤ b.node.id

/-- The node with the number `n`, in its place. -/
def find? (t : NumberedTree) (n : Nat) : Option (Located Nat) :=
  t.located.find? (·.node.id = n)

end Tree

namespace Located

variable {ι : Type}

/-- The parent of a node. -/
def parent? (l : Located ι) : Option (Located ι) :=
  match l.ancestors with
  | [] => none
  | p :: above => some ⟨p, above⟩

/-- The root of the tree that a node belongs to. -/
def root (l : Located ι) : Located ι :=
  ⟨l.ancestors.getLastD l.node, []⟩

/-- The nearest strict ancestor of some kind. -/
def findAncestor? (l : Located ι) (p : NodeKind → Bool) : Option (Tree ι) :=
  l.ancestors.find? fun t => p t.kind

/-- A node and its ancestors, nearest first. -/
def selfAndAncestors (l : Located ι) : List (Tree ι) :=
  l.node :: l.ancestors

/-- Whether a node directly below `above` opens a scope: functions, catch clauses, the root body
and the bodies of namespaces do. -/
def opensScope (kind : NodeKind) (above : List (Tree ι)) : Bool :=
  match kind with
  | .functionExpression .. | .catchClause .. => true
  | .body =>
    match above with
    | [] => true
    | parent :: _ => parent.kind.isNamespace
  | _ => false

/-- Whether a node opens a scope. -/
def isScope (l : Located ι) : Bool :=
  opensScope l.node.kind l.ancestors

/-- The innermost scope among `t` and the nodes above it, or else the last of them. -/
def scopeFrom (t : Tree ι) : List (Tree ι) → Located ι
  | [] => ⟨t, []⟩
  | parent :: above =>
    if opensScope t.kind (parent :: above) then ⟨t, parent :: above⟩ else scopeFrom parent above

/-- The innermost scope around a node, which is the node itself if it opens one. -/
def scope (l : Located ι) : Located ι :=
  scopeFrom l.node l.ancestors

/-- The scope around the scope of a node. -/
def outerScope? (l : Located ι) : Option (Located ι) :=
  l.scope.parent?.map scope

/-- The names of the namespaces among a node and its ancestors, outermost first. -/
def namespaceNames? (l : Located ι) : Option (List String) :=
  let namespaces := l.selfAndAncestors.reverse.filter fun t => t.kind.isNamespace
  namespaces.mapM fun t => t.children.head?.bind Tree.dottedName?

/-- The dotted name of the namespaces around a node; empty outside every namespace. -/
def namespaceName? (l : Located ι) : Option String :=
  l.namespaceNames?.map (".".intercalate ·)

end Located

end BrighterCheck
