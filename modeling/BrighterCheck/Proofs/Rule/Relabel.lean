import BrighterCheck.Proofs.Text.LetterCase
import BrighterCheck.Proofs.Tree.Relabel
import BrighterCheck.Proofs.Tree.Wording
import BrighterCheck.Rule.Validation

/-!
# Findings of relabelled trees

The rules read the texts of words only, and compare them in any letter case. So the findings of a
tree in which nothing but texts looks different are those of the tree, as long as words differ in
the case of their letters at most; only the name in the wording of a duplicate looks different too.
-/

namespace BrighterCheck

open Ascii

/-- The same violation in a source that looks different. -/
def Violation.relabel (r : Relabel) : Violation → Violation
  | .duplicateIdentifier name => .duplicateIdentifier (r.text .identifier name)
  | v => v

def Finding.relabel (r : Relabel) (f : Finding) : Finding :=
  ⟨f.violation.relabel r, f.range⟩

namespace Relabel

/-- A word looks as it does as a name, with the same letters in any case. -/
structure KeepsWord (r : Relabel) (w : Token) : Prop where
  text_eq : r.text w.kind w.text = r.text .identifier w.text
  lower_text : Ascii.lower (r.text .identifier w.text) = Ascii.lower w.text

namespace KeepsWord

variable {r : Relabel} {w : Token} (h : r.KeepsWord w)

include h

lemma text_token : (r.token w).text = r.text .identifier w.text :=
  h.text_eq

lemma lower_token : Ascii.lower (r.token w).text = Ascii.lower w.text :=
  (congrArg Ascii.lower h.text_eq).trans h.lower_text

lemma sameWord_token (word : String) : sameWord (r.token w).text word = sameWord w.text word := by
  rw [sameWord, h.lower_token, sameWord]

end KeepsWord

/-- All words in a tree keep their letters. -/
def KeepsWords (r : Relabel) (t : NumberedTree) : Prop :=
  ∀ u ∈ t.preorder, u.kind.hasContents = false → ∀ w ∈ u.kind.tokens, r.KeepsWord w

namespace KeepsWords

variable {r : Relabel} {t u : NumberedTree} (h : r.KeepsWords t)

include h

lemma keepsWord (hc : t.kind.hasContents = false) : ∀ w ∈ t.kind.tokens, r.KeepsWord w :=
  h t t.self_mem_preorder hc

lemma child (hu : u ∈ t.children) : r.KeepsWords u :=
  fun v hv => h v (Tree.mem_preorder_of_child hu hv)

lemma enumMember {name : Token} {value : Option NumberedTree}
    (hm : t.enumMember? = some (name, value)) : r.KeepsWord name := by
  obtain ⟨id, kind, range, children⟩ := t
  cases kind with
  | enumMember name =>
    cases hm
    exact h.keepsWord rfl name (.head _)
  | _ => cases hm

end KeepsWords

end Relabel

/-- All words in and around a node keep their letters. -/
def Located.KeepsWords (r : Relabel) (l : Located Nat) : Prop :=
  ∀ u ∈ l.selfAndAncestors, r.KeepsWords u

variable {r : Relabel}

namespace Tree

variable {t : NumberedTree} {ts : List NumberedTree}

open Relabel

lemma literal?_relabel (t : NumberedTree) :
    (r.tree t).literal? = t.literal?.map (Prod.map r.token r.tree) := by
  obtain ⟨id, kind, range, children⟩ := t
  cases kind with
  | unary operator =>
    cases children with
    | nil => rfl
    | cons operand rest =>
      obtain ⟨id, kind, range, children⟩ := operand
      cases kind <;> rfl
  | _ => rfl

lemma parameterName?_relabel (t : NumberedTree) :
    (r.tree t).parameterName? = t.parameterName?.map r.token := by
  obtain ⟨id, kind, range, children⟩ := t
  rw [tree_mk]
  cases kind <;> rfl

lemma usesOptionalChaining_relabel (kind : NodeKind) :
    usesOptionalChaining (r.kind kind) = usesOptionalChaining kind := by
  cases kind with
  | indexedSet questionDot _ _ _ => cases questionDot <;> rfl
  | indexedGet questionDot _ _ => cases questionDot <;> rfl
  | _ => rfl

lemma hasTargetObject_relabel (kind : NodeKind) :
    hasTargetObject (r.kind kind) = hasTargetObject kind := by
  cases kind <;> rfl

lemma targetChain_eq (t : NumberedTree) :
    t.targetChain = t :: match t.children with
      | [] => []
      | object :: _ => if hasTargetObject t.kind then object.targetChain else [] := by
  obtain ⟨id, kind, range, children⟩ := t
  cases children <;> rfl

lemma targetChain_relabel (t : NumberedTree) :
    (r.tree t).targetChain = t.targetChain.map r.tree := by
  induction t using Tree.induction with
  | node t ih =>
    rw [targetChain_eq, targetChain_eq t, tree_kind, tree_children, hasTargetObject_relabel]
    cases hc : t.children with
    | nil => rfl
    | cons object rest =>
      have hobject := ih object (hc ▸ .head _)
      simp only [List.map_cons, hobject]
      split
      case isTrue => rfl
      case isFalse => rfl

lemma enumMember?_relabel (t : NumberedTree) :
    (r.tree t).enumMember? =
      t.enumMember?.map fun (name, value) => (r.token name, value.map r.tree) := by
  obtain ⟨id, kind, range, children⟩ := t
  cases kind with
  | enumMember name => simp [enumMember?, tree_mk, Relabel.kind]
  | _ => rfl

lemma literalTypeName?_relabel (t : NumberedTree) :
    (r.tree t).literalTypeName? = t.literalTypeName? := by
  rw [literalTypeName?, literal?_relabel, Option.map_map]
  rfl

lemma enumValueType_relabel (members : List NumberedTree) :
    enumValueType (members.map r.tree) = enumValueType members := by
  have hvalue (t : NumberedTree) : (r.tree t).enumMember?.bind Prod.snd =
      (t.enumMember?.bind Prod.snd).map r.tree := by
    rw [enumMember?_relabel]
    cases t.enumMember? <;> rfl
  simp only [enumValueType, List.filterMap_map, Function.comp_def, hvalue, ← List.map_filterMap,
    List.head?_map, Option.bind_map, literalTypeName?_relabel]

lemma isAllowed_relabel (kind : NodeKind) :
    (r.kind kind).isAllowedOutsideFunctions = kind.isAllowedOutsideFunctions := by
  cases kind <;> rfl

lemma isNamespace_relabel (kind : NodeKind) :
    (r.kind kind).isNamespace = kind.isNamespace := by
  cases kind <;> rfl

lemma isLibrary_relabel (kind : NodeKind) : isLibrary (r.kind kind) = isLibrary kind := by
  cases kind <;> rfl

lemma isImport_relabel (kind : NodeKind) : isImport (r.kind kind) = isImport kind := by
  cases kind <;> rfl

lemma leadingStatements_relabel (t : NumberedTree) :
    (r.tree t).leadingStatements = t.leadingStatements.map r.tree := by
  rw [leadingStatements, leadingStatements, tree_children, List.takeWhile_map]
  congr 2
  funext u
  rw [Function.comp_apply, tree_kind]
  cases u.kind <;> rfl

lemma outsideFindings_of_not_isNamespace (h : t.kind.isNamespace = false) :
    t.outsideFindings =
      if t.kind.isAllowedOutsideFunctions then [] else [⟨.outsideFunction, t.range⟩] := by
  obtain ⟨id, kind, range, children⟩ := t
  have h : kind.isNamespace = false := h
  rw [outsideFindings, h, Bool.false_or]
  rintro keyword name _ _ statements rfl -
  cases h

section InPlace

variable (hr : r.InPlace)

include hr

lemma callfuncFindings_relabel (method : Token) (arguments : List NumberedTree) :
    callfuncFindings (r.token method) (arguments.map r.tree) =
      (callfuncFindings method arguments).map (Finding.relabel r) := by
  simp only [callfuncFindings, List.length_map, hr.token_range]
  split
  case isTrue => rfl
  case isFalse => rfl

lemma parameterFindings_relabel (parameters : List NumberedTree) :
    parameterFindings (parameters.map r.tree) =
      (parameterFindings parameters).map (Finding.relabel r) := by
  simp only [parameterFindings, List.length_map, ← List.map_drop, List.filterMap_map,
    List.map_filterMap, Function.comp_def, parameterName?_relabel, Option.map_map, hr.token_range]
  rfl

lemma targetRange_relabel (t : NumberedTree) : (r.tree t).targetRange = t.targetRange := by
  have hrange : Tree.range ∘ r.tree = Tree.range := funext hr.tree_range
  obtain ⟨id, kind, range, children⟩ := t
  cases kind with
  | dottedSet dot name operator =>
    cases children with
    | nil => rfl
    | cons object rest =>
      rw [tree_mk]
      simp only [targetRange, Relabel.kind, List.map_cons, hr.token_range, hr.tree_range]
  | indexedSet questionDot openSquare closeSquare operator =>
    cases children with
    | nil => rfl
    | cons object rest =>
      rw [tree_mk]
      simp only [targetRange, Relabel.kind, List.map_cons, hr.token_range, hr.tree_range,
        ← List.map_dropLast, List.map_map, hrange]
  | _ => rfl

lemma assignmentFindings_relabel (t : NumberedTree) :
    (r.tree t).assignmentFindings = t.assignmentFindings.map (Finding.relabel r) := by
  simp only [assignmentFindings, targetChain_relabel, targetRange_relabel hr, List.any_map,
    Function.comp_def, tree_kind, usesOptionalChaining_relabel]
  split
  case isTrue => rfl
  case isFalse => rfl

lemma duplicateFindings_relabel (seen : List String) {name : Token} (h : r.KeepsWord name) :
    duplicateFindings seen (r.token name) =
      (duplicateFindings seen name).map (Finding.relabel r) := by
  rw [duplicateFindings, duplicateFindings, h.lower_token, h.text_token, hr.token_range]
  split
  case isTrue => rfl
  case isFalse => rfl

lemma enumValueFindings_relabel (type : String) (member : NumberedTree)
    (value : Option NumberedTree) :
    enumValueFindings type (r.tree member) (value.map r.tree) =
      (enumValueFindings type member value).map (Finding.relabel r) := by
  cases value with
  | none =>
    simp only [enumValueFindings, Option.map_none, hr.tree_range]
    split
    case isTrue => rfl
    case isFalse => rfl
  | some value =>
    simp only [enumValueFindings, Option.map_some, literalTypeName?_relabel, literal?_relabel,
      hr.tree_range, Option.bind_map, Function.comp_def, Prod.map_snd]
    split
    case isTrue => rfl
    case isFalse => rfl

lemma enumFindingsFrom_relabel (type : String) (seen : List String) {members : List NumberedTree}
    (h : ∀ u ∈ members, r.KeepsWords u) :
    enumFindingsFrom type seen (members.map r.tree) =
      (enumFindingsFrom type seen members).map (Finding.relabel r) := by
  induction members generalizing seen with
  | nil => rfl
  | cons member members ih =>
    have ih := fun seen => ih seen fun u hu => h u (.tail _ hu)
    rw [List.map_cons, enumFindingsFrom, enumFindingsFrom, enumMember?_relabel]
    cases hm : member.enumMember? with
    | none => exact ih seen
    | some named =>
      obtain ⟨name, value⟩ := named
      have hname := (h member (.head _)).enumMember hm
      simp only [Option.map_some, duplicateFindings_relabel hr _ hname,
        enumValueFindings_relabel hr, hname.lower_token, ih, List.map_append]

lemma enumFindings_relabel {members : List NumberedTree} (h : ∀ u ∈ members, r.KeepsWords u) :
    enumFindings (members.map r.tree) = (enumFindings members).map (Finding.relabel r) := by
  rw [enumFindings, enumValueType_relabel, enumFindingsFrom_relabel hr _ _ h]
  rfl

lemma outsideFindingsAll_relabel (ts : List NumberedTree) :
    outsideFindingsAll (ts.map r.tree) = (outsideFindingsAll ts).map (Finding.relabel r) := by
  have hall {ts : List NumberedTree} (h : ∀ t ∈ ts,
      outsideFindings (r.tree t) = (outsideFindings t).map (Finding.relabel r)) :
      outsideFindingsAll (ts.map r.tree) = (outsideFindingsAll ts).map (Finding.relabel r) := by
    induction ts with
    | nil => rfl
    | cons t ts ih =>
      rw [List.map_cons, outsideFindingsAll, outsideFindingsAll, h t (.head _),
        ih fun u hu => h u (.tail _ hu), List.map_append]
  -- A namespace looks at the children of its second child, so both levels go through together.
  have hboth (t : NumberedTree) :
      outsideFindings (r.tree t) = (outsideFindings t).map (Finding.relabel r) ∧
        ∀ u ∈ t.children,
          outsideFindings (r.tree u) = (outsideFindings u).map (Finding.relabel r) := by
    induction t using Tree.induction with
    | node t ih =>
      refine ⟨?_, fun u hu => (ih u hu).1⟩
      cases hn : t.kind.isNamespace with
      | false =>
        have hn' : (r.tree t).kind.isNamespace = false := by
          rw [tree_kind, isNamespace_relabel, hn]
        rw [outsideFindings_of_not_isNamespace hn, outsideFindings_of_not_isNamespace hn',
          tree_kind, isAllowed_relabel, hr.tree_range]
        split
        case isTrue => rfl
        case isFalse => rfl
      | true =>
        obtain ⟨id, kind, range, children⟩ := t
        cases kind with
        | namespaceDeclaration keyword =>
          match children with
          | [] => rfl
          | [_] => rfl
          | _ :: ⟨_, kind, _, _⟩ :: _ :: _ => cases kind <;> rfl
          | [name, ⟨_, kind, _, statements⟩] =>
            cases kind with
            | body =>
              have hstatements := hall (ih _ (.tail _ (.head _))).2
              simpa [tree_mk, outsideFindings, Relabel.kind] using hstatements
            | _ => rfl
        | _ => cases hn
  exact hall fun t _ => (hboth t).1

lemma lateFindings_relabel (t : NumberedTree) {p : NodeKind → Bool} {v : Violation}
    (hp : ∀ kind, p (r.kind kind) = p kind) (hv : v.relabel r = v) :
    (r.tree t).lateFindings p v = (t.lateFindings p v).map (Finding.relabel r) := by
  have hfinding : (fun u : NumberedTree => (⟨v, (r.tree u).range⟩ : Finding)) =
      fun u => Finding.relabel r ⟨v, u.range⟩ := by
    funext u
    rw [Finding.relabel, hv, hr.tree_range]
  simp only [lateFindings, leadingStatements_relabel, preorder_tree, List.filter_map, List.map_map,
    Function.comp_def, hfinding, tree_kind, hp, hr.tree_id]

lemma directiveFindings_relabel (t : NumberedTree) :
    (r.tree t).directiveFindings = t.directiveFindings.map (Finding.relabel r) := by
  rw [directiveFindings, lateFindings_relabel hr t isLibrary_relabel rfl,
    lateFindings_relabel hr t isImport_relabel rfl, ← List.map_append]
  rfl

end InPlace

end Tree

namespace Located

open Relabel

variable {l : Located Nat}

lemma opensScope_relabel (kind : NodeKind) (above : List NumberedTree) :
    opensScope (r.kind kind) (above.map r.tree) = opensScope kind above := by
  cases kind with
  | body =>
    cases above with
    | nil => rfl
    | cons parent above =>
      show (r.tree parent).kind.isNamespace = parent.kind.isNamespace
      rw [tree_kind, Tree.isNamespace_relabel]
  | _ => rfl

lemma isNamespaceLevel_relabel (l : Located Nat) :
    (r.located l).isNamespaceLevel = l.isNamespaceLevel := by
  obtain ⟨node, ancestors⟩ := l
  cases ancestors with
  | nil => rfl
  | cons parent above =>
    have hbody : (r.tree parent).kind.isBody = parent.kind.isBody := by
      rw [tree_kind]
      cases parent.kind <;> rfl
    show ((r.tree parent).kind.isBody && opensScope (r.tree parent).kind
      (above.map r.tree)) = _
    rw [hbody, tree_kind, opensScope_relabel]
    rfl

lemma enclosingFunction?_relabel (l : Located Nat) :
    (r.located l).enclosingFunction? =
      l.enclosingFunction?.map fun (keyword, returns) =>
        (r.token keyword, returns.map r.token) := by
  simp only [enclosingFunction?, Relabel.located, List.findSome?_map, List.map_findSome?]
  congr 1
  funext t
  rw [Function.comp_apply, Function.comp_apply, tree_kind]
  cases t.kind <;> rfl

namespace KeepsWords

variable (h : l.KeepsWords r)

include h

lemma node : r.KeepsWords l.node :=
  h l.node (.head _)

/-- The keyword of a declaration is a word. -/
lemma declaration {keyword : Token} {range : Option Range}
    (hd : l.declaration? = some (keyword, range)) : r.KeepsWord keyword := by
  have hnode := h.node
  obtain ⟨⟨id, kind, range, children⟩, ancestors⟩ := l
  cases kind with
  | enumDeclaration | classDeclaration | interfaceDeclaration | constDeclaration =>
    cases hd
    exact hnode.keepsWord rfl keyword (.head _)
  | namespaceDeclaration =>
    cases children with
    | nil => cases hd
    | cons =>
      cases hd
      exact hnode.keepsWord rfl keyword (.head _)
  | function =>
    cases children with
    | nil => cases hd
    | cons function rest =>
      have hfunction := hnode.child (u := function) (.head _)
      obtain ⟨id', kind', range', children'⟩ := function
      cases kind' with
      | functionExpression =>
        cases hd
        exact hfunction.keepsWord rfl keyword (.head _)
      | _ => cases hd
  | _ => cases hd

/-- The keyword and the type of a function are words. -/
lemma enclosingFunction {keyword : Token} {returns : Option Token}
    (hf : l.enclosingFunction? = some (keyword, returns)) :
    r.KeepsWord keyword ∧ ∀ type ∈ returns, r.KeepsWord type := by
  obtain ⟨t, ht, hkind⟩ := List.exists_of_findSome?_eq_some hf
  have hwords := (h t (.tail _ ht)).keepsWord
  generalize t.kind = kind at hkind hwords
  cases kind with
  | functionExpression =>
    cases hkind
    exact ⟨hwords rfl keyword (.head _),
      fun type htype => hwords rfl type (.tail _ (Option.mem_toList.2 htype))⟩
  | _ => cases hkind

end KeepsWords

section InPlace

variable (hr : r.InPlace)

include hr

lemma declaration?_relabel (l : Located Nat) :
    (r.located l).declaration? =
      l.declaration?.map fun (keyword, range) => (r.token keyword, range) := by
  obtain ⟨⟨id, kind, range, children⟩, ancestors⟩ := l
  cases kind with
  | enumDeclaration keyword name | classDeclaration keyword name
  | interfaceDeclaration keyword name | constDeclaration keyword name =>
    show some (r.token keyword, some (r.token name).range) = _
    rw [hr.token_range]
    rfl
  | namespaceDeclaration keyword =>
    cases children with
    | nil => rfl
    | cons name rest =>
      show some (r.token keyword, (r.tree name).range) = _
      rw [hr.tree_range]
      rfl
  | function name =>
    cases children with
    | nil => rfl
    | cons function rest =>
      obtain ⟨id', kind', range', children'⟩ := function
      cases kind' with
      | functionExpression keyword returns =>
        show some (r.token keyword, some (r.token name).range) = _
        rw [hr.token_range]
        rfl
      | _ => rfl
  | _ => rfl

lemma placementFindings_relabel (h : l.KeepsWords r) :
    (r.located l).placementFindings = l.placementFindings.map (Finding.relabel r) := by
  rw [placementFindings, placementFindings, declaration?_relabel hr]
  cases hd : l.declaration? with
  | none => rfl
  | some declaration =>
    obtain ⟨keyword, range⟩ := declaration
    have hkeyword := h.declaration hd
    simp only [Option.map_some, isNamespaceLevel_relabel, hkeyword.lower_token, hr.token_range]
    split
    case isTrue => rfl
    case isFalse => rfl

lemma continueFindings_relabel (l : Located Nat) {loop : Option Token}
    (h : ∀ stated ∈ loop, r.KeepsWord stated) :
    (r.located l).continueFindings (loop.map r.token) =
      (l.continueFindings loop).map (Finding.relabel r) := by
  have hloop (kind : NodeKind) : (r.kind kind).isLoop = kind.isLoop := by
    cases kind <;> rfl
  have hword (kind : NodeKind) : loopWord (r.kind kind) = loopWord kind := by
    cases kind <;> rfl
  have hfound : (r.located l).findAncestor? NodeKind.isLoop =
      (l.findAncestor? NodeKind.isLoop).map r.tree := by
    simp only [findAncestor?, Relabel.located, List.find?_map, Function.comp_def, tree_kind, hloop]
  rw [continueFindings, continueFindings, hfound]
  cases l.findAncestor? NodeKind.isLoop with
  | none =>
    simp only [Option.map_none, Relabel.located, hr.tree_range]
    rfl
  | some enclosing =>
    cases loop with
    | none => rfl
    | some stated =>
      simp only [Option.map_some, tree_kind, hword, (h stated rfl).sameWord_token, hr.token_range]
      split
      case isTrue => rfl
      case isFalse => rfl

omit hr in
lemma isVoid_relabel (keyword : Token) {returns : Option Token}
    (h : ∀ type ∈ returns, r.KeepsWord type) :
    isVoid (r.token keyword) (returns.map r.token) = isVoid keyword returns := by
  cases returns with
  | none => rfl
  | some type => exact (h type rfl).sameWord_token "void"

lemma returnFindings_relabel (h : l.KeepsWords r) :
    (r.located l).returnFindings = l.returnFindings.map (Finding.relabel r) := by
  rw [returnFindings, returnFindings, enclosingFunction?_relabel]
  cases hf : l.enclosingFunction? with
  | none => rfl
  | some function =>
    obtain ⟨keyword, returns⟩ := function
    obtain ⟨hkeyword, hreturns⟩ := h.enclosingFunction hf
    have hchildren : (r.tree l.node).children.isEmpty = l.node.children.isEmpty := by
      rw [tree_children, List.isEmpty_map]
    simp only [Option.map_some, isVoid_relabel keyword hreturns, hkeyword.lower_token,
      Relabel.located, hchildren, hr.tree_range]
    split
    case isTrue => rfl
    case isFalse =>
      split
      case isTrue => rfl
      case isFalse => rfl

/-- The findings of one relabelled node. -/
lemma findings_relabel (h : l.KeepsWords r) :
    (r.located l).findings = l.findings.map (Finding.relabel r) := by
  have hplacement := placementFindings_relabel hr h
  have hwords := h.node.keepsWord
  have hmembers : ∀ u ∈ l.node.children, r.KeepsWords u := fun u hu => h.node.child hu
  have hchildren : (r.located l).node.children = l.node.children.map r.tree :=
    tree_children _ _
  have hkind : (r.located l).node.kind = r.kind l.node.kind := tree_kind _ _
  unfold findings
  rw [hkind, hchildren]
  generalize hk : l.node.kind = kind at hwords
  cases kind with
  | callfunc token method =>
    rw [← List.map_tail]
    exact Tree.callfuncFindings_relabel hr method _
  | enumDeclaration token name =>
    rw [List.map_append, ← hplacement, ← Tree.enumFindings_relabel hr hmembers]
    rfl
  | dottedSet dot name operator => exact Tree.assignmentFindings_relabel hr l.node
  | indexedSet questionDot openSquare closeSquare operator =>
    exact Tree.assignmentFindings_relabel hr l.node
  | functionExpression keyword returns =>
    rw [← List.map_dropLast]
    exact Tree.parameterFindings_relabel hr _
  | returnStatement keyword => exact returnFindings_relabel hr h
  | continueLoop keyword loop =>
    exact continueFindings_relabel hr l fun stated hstated =>
      hwords rfl stated (.tail _ (Option.mem_toList.2 hstated))
  | _ => exact hplacement

end InPlace

end Located

/-- A relabelled tree has the relabelled findings. -/
theorem Tree.findings_relabel (hr : r.InPlace) {t : NumberedTree} (h : r.KeepsWords t)
    (typedef : Bool) :
    (r.tree t).findings typedef = (t.findings typedef).map (Finding.relabel r) := by
  have hone : ∀ l ∈ t.located,
      (r.located l).findings = l.findings.map (Finding.relabel r) := fun l hl =>
    Located.findings_relabel hr fun u hu v hv => h v (preorder_subset hl hu hv)
  have hnodes : (r.tree t).located.flatMap Located.findings =
      (t.located.flatMap Located.findings).map (Finding.relabel r) := by
    rw [Relabel.located_tree, List.flatMap_map, List.map_flatMap]
    exact List.flatMap_congr hone
  rw [findings, findings, List.map_append, List.map_append, hnodes, Relabel.tree_children,
    outsideFindingsAll_relabel hr, directiveFindings_relabel hr]
  cases typedef <;> rfl

end BrighterCheck
