import BrighterCheck.Proofs.Tree.Numbering
import BrighterCheck.Proofs.Tree.Walk
import BrighterCheck.Rule.Analysis

/-!
# What a validation does

A validation reports and registers in turn as it walks, in one state. Its effects come apart: every
node adds its own findings to the diagnostics and its own registrations to the tables, whatever
both hold by then (`sink_enter`, `scopes_enter`), so that the whole pass is a list of findings and a
list of registrations in pre-order (`validate_eq`). The findings of a node follow from the node and
the kinds above it (`findings_congr`).
-/

namespace BrighterCheck

namespace Sink

@[simp]
lemma addAll_nil (s : Sink) : s.addAll [] = s := by
  simp [addAll]

lemma addAll_append (s : Sink) (fs gs : List Finding) :
    s.addAll (fs ++ gs) = (s.addAll fs).addAll gs := by
  simp [addAll]

end Sink

/-! ### Findings of one node -/

namespace Located

variable {ι : Type} {l l' : Located ι}

/-- The nearest ancestor of some kind is found among the kinds above a node. -/
lemma map_kind_findAncestor? (l : Located ι) (p : NodeKind → Bool) :
    (l.findAncestor? p).map Tree.kind = (l.ancestors.map Tree.kind).find? p := by
  rw [List.find?_map]
  rfl

lemma isNamespaceLevel_congr (hk : l.ancestors.map Tree.kind = l'.ancestors.map Tree.kind) :
    l.isNamespaceLevel = l'.isNamespaceLevel := by
  obtain ⟨node, ancestors⟩ := l
  obtain ⟨node', ancestors'⟩ := l'
  -- Only the parent and the node above it count.
  match ancestors, ancestors', hk with
  | [], [], _ => rfl
  | [p], [p'], hk =>
    obtain ⟨hp, -⟩ := List.cons.inj hk
    simp [isNamespaceLevel, opensScope, hp]
  | [_], _ :: _ :: _, hk | _ :: _ :: _, [_], hk => simp at hk
  | p :: q :: above, p' :: q' :: above', hk =>
    obtain ⟨hp, hk⟩ := List.cons.inj hk
    obtain ⟨hq, -⟩ := List.cons.inj hk
    simp [isNamespaceLevel, opensScope, hp, hq]

lemma placementFindings_congr (hn : l.node = l'.node)
    (hk : l.ancestors.map Tree.kind = l'.ancestors.map Tree.kind) :
    l.placementFindings = l'.placementFindings := by
  have hdeclaration : l.declaration? = l'.declaration? := by
    rw [declaration?, declaration?, hn]
  rw [placementFindings, placementFindings, hdeclaration, isNamespaceLevel_congr hk]

/-- What a function is told by: its keyword, and the type of what it returns. -/
def functionHead? : NodeKind → Option (Token × Option Token)
  | .functionExpression keyword returns => some (keyword, returns)
  | _ => none

lemma enclosingFunction?_eq (l : Located ι) :
    l.enclosingFunction? = (l.ancestors.map Tree.kind).findSome? functionHead? := by
  rw [List.findSome?_map]
  rfl

lemma returnFindings_congr (hn : l.node = l'.node)
    (hk : l.ancestors.map Tree.kind = l'.ancestors.map Tree.kind) :
    l.returnFindings = l'.returnFindings := by
  rw [returnFindings, returnFindings, l.enclosingFunction?_eq, l'.enclosingFunction?_eq, hk, hn]

lemma continueFindings_congr (hn : l.node = l'.node)
    (hk : l.ancestors.map Tree.kind = l'.ancestors.map Tree.kind) (loop : Option Token) :
    l.continueFindings loop = l'.continueFindings loop := by
  have hloop := l.map_kind_findAncestor? NodeKind.isLoop
  rw [hk, ← l'.map_kind_findAncestor?] at hloop
  rw [continueFindings, continueFindings, hn]
  cases he : l.findAncestor? NodeKind.isLoop with
  | none =>
    cases he' : l'.findAncestor? NodeKind.isLoop with
    | none => rfl
    | some enclosing' => simp [he, he'] at hloop
  | some enclosing =>
    cases he' : l'.findAncestor? NodeKind.isLoop with
    | none => simp [he, he'] at hloop
    | some enclosing' =>
      rw [he, he'] at hloop
      have hkind : enclosing.kind = enclosing'.kind := Option.some.inj hloop
      simp only [hkind]

/-- The findings of a node follow from the node and the kinds above it. -/
theorem findings_congr (hn : l.node = l'.node)
    (hk : l.ancestors.map Tree.kind = l'.ancestors.map Tree.kind) : l.findings = l'.findings := by
  simp only [findings, hn, placementFindings_congr hn hk, returnFindings_congr hn hk,
    continueFindings_congr hn hk]

end Located

/-! ### One step, and the whole walk -/

namespace Validation

/-- Entering a node adds its findings to the diagnostics. -/
theorem sink_enter (v : Validation) (l : Located Nat) :
    (v.enter l).sink = v.sink.addAll l.findings := by
  obtain ⟨⟨id, kind, range, children⟩, ancestors⟩ := l
  cases kind with
  | enumDeclaration keyword name => exact (Sink.addAll_append _ _ _).symm
  | callfunc | classDeclaration | namespaceDeclaration | function | interfaceDeclaration
  | constDeclaration | dottedSet | indexedSet | functionExpression | returnStatement
  | continueLoop => rfl
  -- The other kinds are no declarations, so that they have no findings.
  | _ => exact (Sink.addAll_nil _).symm

/-- Entering a node performs its registrations. -/
theorem scopes_enter (v : Validation) (l : Located Nat) :
    (v.enter l).scopes = l.registrations.foldl Scopes.register v.scopes := by
  obtain ⟨⟨id, kind, range, children⟩, ancestors⟩ := l
  cases kind <;> rfl

/-- What the walk does is what entering the nodes does one after the other. -/
lemma foldl_visit (v : Validation) (events : List (Event Nat)) :
    events.foldl visit v = (events.filterMap Event.entered?).foldl enter v := by
  induction events generalizing v with
  | nil => rfl
  | cons e events ih =>
    obtain ⟨visit, place⟩ := e
    cases visit with
    | enter => exact ih _
    | exit => exact ih _

lemma sink_foldl_enter (v : Validation) (ls : List (Located Nat)) :
    (ls.foldl enter v).sink = v.sink.addAll (ls.flatMap Located.findings) := by
  induction ls generalizing v with
  | nil => exact (Sink.addAll_nil _).symm
  | cons l ls ih => rw [List.foldl_cons, ih, sink_enter, List.flatMap_cons, Sink.addAll_append]

lemma scopes_foldl_enter (v : Validation) (ls : List (Located Nat)) :
    (ls.foldl enter v).scopes =
      (ls.flatMap Located.registrations).foldl Scopes.register v.scopes := by
  induction ls generalizing v with
  | nil => rfl
  | cons l ls ih => rw [List.foldl_cons, ih, scopes_enter, List.flatMap_cons, List.foldl_append]

end Validation

namespace Analysis

/-- The walk of a validation enters the nodes of the tree in pre-order. -/
lemma walk_visit (t : NumberedTree) (v : Validation) :
    Located.walk Validation.visit ⟨t, []⟩ v = t.located.foldl Validation.enter v := by
  rw [Located.walk_eq_foldl, Validation.foldl_visit, Tree.filterMap_entered_traversal]
  rfl

/-- A validation leaves the registrations of all nodes, and the findings of the file. -/
theorem validate_eq (a : Analysis) (typedef : Bool) (sink : Sink) :
    a.validate typedef sink =
      ({ a with scopes :=
          (a.tree.located.flatMap Located.registrations).foldl Scopes.register .empty },
        sink.clear.addAll (a.tree.findings typedef)) := by
  have hscopes := Validation.scopes_foldl_enter ⟨.empty, sink.clear⟩ a.tree.located
  have hsink := Validation.sink_foldl_enter ⟨.empty, sink.clear⟩ a.tree.located
  rw [← walk_visit] at hscopes hsink
  rw [validate, Tree.findings, Sink.addAll_append, Sink.addAll_append, ← hsink, ← hscopes]
  cases typedef with
  | false => rfl
  | true =>
    rw [if_pos rfl, if_pos rfl, Sink.addAll_nil]
    rfl

lemma items_validate (a : Analysis) (typedef : Bool) (sink : Sink) :
    (a.validate typedef sink).2.items =
      (a.tree.findings typedef).map fun finding => finding.diagnostic sink.fileId := by
  rw [validate_eq]
  exact List.nil_append _

end Analysis

namespace ParsedFile

/--
Whatever tables and diagnostics a file had before, validation reports the findings of every node in
pre-order, those of the statements outside functions, and those of the directives unless the file
holds type definitions. Each node is entered once, adds its findings to whatever was reported and
registered before, and has them from itself and the kinds above it alone.
-/
theorem diagnostics_validate {source : String} {f : ParsedFile} (h : ofSource source = .ok f) :
    (∀ scopes typedef sink,
      (Analysis.validate ⟨f.tree, scopes⟩ typedef sink).2.items =
        (f.tree.located.flatMap Located.findings ++ Tree.outsideFindingsAll f.tree.children ++
          if typedef then [] else f.tree.directiveFindings).map
            fun finding => finding.diagnostic sink.fileId) ∧
      (∀ scopes sink,
        (Analysis.validate ⟨f.tree, scopes⟩ false sink).2.items =
          (Analysis.validate ⟨f.tree, scopes⟩ true sink).2.items ++
            f.tree.directiveFindings.map fun finding => finding.diagnostic sink.fileId) ∧
      f.tree.located.map Located.node = f.tree.preorder ∧
      (f.tree.located.map fun l => l.node.id).Perm (List.range f.nodeCount) ∧
      (∀ (v : Validation) (l : Located Nat), (v.enter l).sink.items =
        v.sink.items ++ l.findings.map fun finding => finding.diagnostic v.sink.fileId) ∧
      ∀ l l' : Located Nat, l.node = l'.node →
        l.ancestors.map Tree.kind = l'.ancestors.map Tree.kind → l.findings = l'.findings := by
  have hitems (scopes : Scopes) (typedef : Bool) (sink : Sink) :
      (Analysis.validate ⟨f.tree, scopes⟩ typedef sink).2.items =
        (f.tree.findings typedef).map fun finding => finding.diagnostic sink.fileId :=
    Analysis.items_validate _ typedef sink
  refine ⟨hitems, fun scopes sink => ?_, f.tree.map_node_located, ?_, fun v l => ?_,
    fun l l' => Located.findings_congr⟩
  · rw [hitems, hitems, ← List.map_append]
    simp [Tree.findings]
  · have hids := perm_ids h
    rwa [← Tree.map_node_located, List.map_map] at hids
  · rw [Validation.sink_enter]
    rfl

/-- A file with a value returned from a `sub`, a statement outside functions, and a late import. -/
theorem diagnostics_validate_of_return :
    ∃ f, ofSource "sub a()\nreturn 1\nend sub\nx = 1\nimport \"b\"" = .ok f ∧
      ∀ scopes sink,
        (Analysis.validate ⟨f.tree, scopes⟩ false sink).2.items.map Diagnostic.code =
          [1107, 1110, 1112] := by
  have hcodes : (ofSource "sub a()\nreturn 1\nend sub\nx = 1\nimport \"b\"").toOption.any
      fun f => ((f.tree.located.flatMap Located.findings ++
        Tree.outsideFindingsAll f.tree.children ++ f.tree.directiveFindings).map
          fun finding => finding.violation.code) = [1107, 1110, 1112] := by
    decide +kernel
  obtain ⟨f, hf, hcodes⟩ := exists_of_any hcodes
  obtain ⟨hitems, -⟩ := diagnostics_validate hf
  refine ⟨f, hf, fun scopes sink => ?_⟩
  rw [hitems, List.map_map]
  exact of_decide_eq_true hcodes

end ParsedFile

end BrighterCheck
