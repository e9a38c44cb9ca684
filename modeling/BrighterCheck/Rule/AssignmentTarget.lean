import BrighterCheck.Diagnostic.Basic
import BrighterCheck.Tree.Basic

/-!
# Assignment targets

A target of an assignment is reached through a chain of objects, none of which may be accessed with
a question mark.
-/

namespace BrighterCheck.Tree

variable {ι : Type}

/-- Whether a node accesses its object with a question mark. -/
def usesOptionalChaining (kind : NodeKind) : Bool :=
  match kind with
  | .dottedGet dot _ | .dottedSet dot _ _ => dot.kind = .punctuator .questionDot
  | .indexedGet questionDot openSquare _ | .indexedSet questionDot openSquare _ _ =>
    questionDot.isSome || openSquare.kind = .punctuator .questionSquare
  | _ => false

/-- Whether the first child of a node is the next object on the chain of a target. -/
def hasTargetObject : NodeKind → Bool
  | .dottedSet .. | .indexedSet .. | .dottedGet .. | .indexedGet .. | .call | .callfunc ..
  | .grouping => true
  | _ => false

/-- The nodes on the chain of a target, from the assignment inwards. -/
def targetChain : Tree ι → List (Tree ι)
  | ⟨id, kind, range, []⟩ => [⟨id, kind, range, []⟩]
  | ⟨id, kind, range, object :: rest⟩ =>
    ⟨id, kind, range, object :: rest⟩ :: if hasTargetObject kind then targetChain object else []

/-- The range of a target without the value assigned to it. -/
def targetRange (t : Tree ι) : Option Range :=
  match t.kind, t.children with
  | .dottedSet dot name _, object :: _ =>
    Range.bounding [object.range, some dot.range, some name.range]
  | .indexedSet _ openSquare closeSquare _, object :: rest =>
    Range.bounding
      ([object.range, some openSquare.range] ++ rest.dropLast.map Tree.range ++
        [some closeSquare.range])
  | _, _ => none

/-- An assignment whose target uses a question mark is reported once, at the target. -/
def assignmentFindings (t : Tree ι) : List Finding :=
  if t.targetChain.any fun u => usesOptionalChaining u.kind then
    [⟨.optionalChainingTarget, t.targetRange⟩]
  else
    []

end BrighterCheck.Tree
