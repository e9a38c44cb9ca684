import BrighterCheck.Proofs.Rule.Validation

/-!
# Which rule reports what

The code of a violation tells the rule that reports it, so that the diagnostics with some codes are
the findings of the nodes of some kinds, one node after the other (`filter_findings`).
-/

namespace BrighterCheck

/-- The codes of what is reported of nodes of some kind. -/
def NodeKind.reportedCodes : NodeKind → List Nat
  | .callfunc .. => [1100]
  | .enumDeclaration .. => [1101, 1102, 1103, 1104]
  | .classDeclaration .. | .interfaceDeclaration .. | .namespaceDeclaration .. | .function ..
  | .constDeclaration .. => [1101]
  | .continueLoop .. => [1105, 1106]
  | .returnStatement .. => [1107, 1108]
  | .dottedSet .. | .indexedSet .. => [1109]
  | .functionExpression .. => [1113]
  | _ => []

variable {ι : Type} {x : Finding}

namespace Tree

variable {t : Tree ι} {ts : List (Tree ι)}

lemma code_callfuncFindings {method : Token} (hx : x ∈ callfuncFindings method ts) :
    x.violation.code = 1100 := by
  unfold callfuncFindings at hx
  split at hx
  · cases List.mem_singleton.1 hx
    rfl
  · cases hx

lemma code_parameterFindings (hx : x ∈ parameterFindings ts) : x.violation.code = 1113 := by
  obtain ⟨p, -, hx⟩ := List.mem_filterMap.1 hx
  obtain ⟨name, -, rfl⟩ := Option.map_eq_some_iff.1 hx
  rfl

lemma code_assignmentFindings (hx : x ∈ t.assignmentFindings) : x.violation.code = 1109 := by
  unfold assignmentFindings at hx
  split at hx
  · cases List.mem_singleton.1 hx
    rfl
  · cases hx

lemma code_duplicateFindings {seen : List String} {name : Token}
    (hx : x ∈ duplicateFindings seen name) : x.violation.code = 1102 := by
  unfold duplicateFindings at hx
  split at hx
  · cases List.mem_singleton.1 hx
    rfl
  · cases hx

lemma code_enumValueFindings {type : String} {value : Option (Tree ι)}
    (hx : x ∈ enumValueFindings type t value) :
    x.violation.code = 1103 ∨ x.violation.code = 1104 := by
  unfold enumValueFindings at hx
  split at hx
  · split at hx
    · cases hx
    · cases List.mem_singleton.1 hx
      exact .inr rfl
  · split at hx
    · cases hx
    · cases List.mem_singleton.1 hx
      exact .inl rfl

lemma code_enumFindingsFrom {type : String} {seen : List String}
    (hx : x ∈ enumFindingsFrom type seen ts) : x.violation.code ∈ [1102, 1103, 1104] := by
  induction ts generalizing seen with
  | nil => cases hx
  | cons member members ih =>
    unfold enumFindingsFrom at hx
    split at hx
    · exact ih hx
    · cases List.mem_append.1 hx with
      | inr hx => exact ih hx
      | inl hx =>
        cases List.mem_append.1 hx with
        | inl hx => simp [code_duplicateFindings hx]
        | inr hx =>
          obtain hcode | hcode := code_enumValueFindings hx
          · simp [hcode]
          · simp [hcode]

lemma code_outsideFindingsAll (hx : x ∈ outsideFindingsAll ts) : x.violation.code = 1110 := by
  induction ts using outsideFindingsAll.induct
    (fun t => x ∈ t.outsideFindings → x.violation.code = 1110) with
  | case1 id keyword range name id' range' statements ih hx => exact ih hx
  | case2 id kind range children hn hallowed hx =>
    rw [outsideFindings.eq_2 _ _ _ _ hn, if_pos hallowed] at hx
    cases hx
  | case3 id kind range children hn hallowed hx =>
    rw [outsideFindings.eq_2 _ _ _ _ hn, if_neg hallowed] at hx
    cases List.mem_singleton.1 hx
    rfl
  | case4 => cases hx
  | case5 t ts iht ihts =>
    cases List.mem_append.1 hx with
    | inl hx => exact iht hx
    | inr hx => exact ihts hx

lemma code_directiveFindings {t : NumberedTree} (hx : x ∈ t.directiveFindings) :
    x.violation.code = 1111 ∨ x.violation.code = 1112 := by
  cases List.mem_append.1 hx with
  | inl hx =>
    obtain ⟨u, -, rfl⟩ := List.mem_map.1 hx
    exact .inl rfl
  | inr hx =>
    obtain ⟨u, -, rfl⟩ := List.mem_map.1 hx
    exact .inr rfl

end Tree

namespace Located

variable {l : Located ι}

lemma code_placementFindings (hx : x ∈ l.placementFindings) : x.violation.code = 1101 := by
  unfold placementFindings at hx
  split at hx
  · cases hx
  · split at hx
    · cases hx
    · cases List.mem_singleton.1 hx
      rfl

lemma code_returnFindings (hx : x ∈ l.returnFindings) :
    x.violation.code = 1107 ∨ x.violation.code = 1108 := by
  unfold returnFindings at hx
  split at hx
  · cases hx
  · dsimp only at hx
    split at hx
    · cases List.mem_singleton.1 hx
      exact .inl rfl
    · split at hx
      · cases List.mem_singleton.1 hx
        exact .inr rfl
      · cases hx

lemma code_continueFindings {loop : Option Token} (hx : x ∈ l.continueFindings loop) :
    x.violation.code = 1105 ∨ x.violation.code = 1106 := by
  unfold continueFindings at hx
  split at hx
  · cases List.mem_singleton.1 hx
    exact .inr rfl
  · dsimp only at hx
    split at hx
    · split at hx
      · cases hx
      · cases List.mem_singleton.1 hx
        exact .inl rfl
    · cases hx

/-- What is reported of a node has one of the codes for its kind. -/
theorem code_findings (hx : x ∈ l.findings) : x.violation.code ∈ l.node.kind.reportedCodes := by
  have hplacement : l.findings = l.placementFindings → x.violation.code = 1101 := by
    intro h
    rw [h] at hx
    exact code_placementFindings hx
  obtain ⟨⟨id, kind, range, children⟩, ancestors⟩ := l
  cases kind with
  | callfunc operator method => simp [NodeKind.reportedCodes, Tree.code_callfuncFindings hx]
  | enumDeclaration keyword name =>
    cases List.mem_append.1 hx with
    | inl hx => simp [NodeKind.reportedCodes, code_placementFindings hx]
    | inr hx => exact .tail _ (Tree.code_enumFindingsFrom hx)
  | dottedSet | indexedSet => simp [NodeKind.reportedCodes, Tree.code_assignmentFindings hx]
  | functionExpression => simp [NodeKind.reportedCodes, Tree.code_parameterFindings hx]
  | returnStatement => simpa [NodeKind.reportedCodes] using code_returnFindings hx
  | continueLoop => simpa [NodeKind.reportedCodes] using code_continueFindings hx
  | classDeclaration | interfaceDeclaration | namespaceDeclaration | function | constDeclaration =>
    simp [NodeKind.reportedCodes, hplacement rfl]
  -- The other kinds are no declarations, so that they have no findings.
  | _ => cases hx

end Located

/-- What some elements of a list give is what all give if the others give nothing. -/
lemma flatMap_filter {α β : Type} (as : List α) (q : α → Bool) (f : α → List β) :
    (as.filter q).flatMap f = as.flatMap fun a => if q a then f a else [] := by
  induction as with
  | nil => rfl
  | cons a as ih =>
    rw [List.flatMap_cons, ← ih]
    cases h : q a with
    | true =>
      rw [List.filter_cons_of_pos h]
      rfl
    | false =>
      rw [List.filter_cons_of_neg (by simp [h])]
      rfl

/--
The findings of a file with some codes are those of its nodes in pre-order, if neither statements
outside functions nor directives are reported with these codes.
-/
theorem Tree.filter_findings_eq_flatMap {p : Nat → Bool}
    (hfile : ∀ code ∈ [1110, 1111, 1112], p code = false) (t : NumberedTree) (typedef : Bool) :
    (t.findings typedef).filter (fun x => p x.violation.code) =
      t.located.flatMap fun l => l.findings.filter fun x => p x.violation.code := by
  have houtside : (outsideFindingsAll t.children).filter (fun x => p x.violation.code) = [] := by
    apply List.filter_eq_nil_iff.2
    intro x hx
    simp [code_outsideFindingsAll hx, hfile]
  have hdirective : t.directiveFindings.filter (fun x => p x.violation.code) = [] := by
    apply List.filter_eq_nil_iff.2
    intro x hx
    obtain hcode | hcode := code_directiveFindings hx
    · simp [hcode, hfile]
    · simp [hcode, hfile]
  rw [findings, List.filter_append, List.filter_append, houtside, List.append_nil,
    List.filter_flatMap]
  cases typedef with
  | false => rw [if_neg Bool.false_ne_true, hdirective, List.append_nil]
  | true => rw [if_pos rfl, List.filter_nil, List.append_nil]

/--
The findings of a file with some codes are those of the nodes of some kinds in pre-order, if these
codes are reported of all such nodes, of no others, and neither of statements outside functions nor
of directives.
-/
theorem Tree.filter_findings {p : Nat → Bool} {q : NodeKind → Bool}
    (hkind : ∀ kind : NodeKind, ∀ code ∈ kind.reportedCodes, p code = q kind)
    (hfile : ∀ code ∈ [1110, 1111, 1112], p code = false) (t : NumberedTree) (typedef : Bool) :
    (t.findings typedef).filter (fun x => p x.violation.code) =
      (t.located.filter fun l => q l.node.kind).flatMap Located.findings := by
  rw [t.filter_findings_eq_flatMap hfile, flatMap_filter]
  apply List.flatMap_congr
  intro l _
  have hl : ∀ x ∈ l.findings, p x.violation.code = q l.node.kind := by
    intro x hx
    exact hkind _ _ (Located.code_findings hx)
  rw [List.filter_congr hl]
  cases q l.node.kind with
  | false => simp
  | true => simp

/-- No node is reported with a code that is not reported of its kind. -/
lemma Tree.filter_findings_nodes {p : Nat → Bool}
    (hp : ∀ kind : NodeKind, ∀ code ∈ kind.reportedCodes, p code = false) (t : Tree ι) :
    (t.located.flatMap Located.findings).filter (fun x => p x.violation.code) = [] := by
  apply List.filter_eq_nil_iff.2
  intro x hx
  obtain ⟨l, -, hx⟩ := List.mem_flatMap.1 hx
  simp [hp _ _ (Located.code_findings hx)]

/-- The findings of the statements outside functions have a code of their own. -/
lemma Tree.filter_findings_outside (t : NumberedTree) (typedef : Bool) :
    (t.findings typedef).filter (fun x => x.violation.code = 1110) =
      outsideFindingsAll t.children := by
  have hnodes := t.filter_findings_nodes (p := fun code => code = 1110) (by
    intro kind
    cases kind with
    | _ => simp [NodeKind.reportedCodes])
  have hdirectives : t.directiveFindings.filter (fun x => x.violation.code = 1110) = [] := by
    apply List.filter_eq_nil_iff.2
    intro x hx
    obtain hcode | hcode := code_directiveFindings hx
    · simp [hcode]
    · simp [hcode]
  have houtside : ∀ x ∈ outsideFindingsAll t.children, decide (x.violation.code = 1110) = true :=
    fun x hx => decide_eq_true (code_outsideFindingsAll hx)
  rw [findings, List.filter_append, List.filter_append, hnodes, List.filter_eq_self.2 houtside]
  cases typedef with
  | false => rw [if_neg Bool.false_ne_true, hdirectives, List.append_nil, List.nil_append]
  | true => rw [if_pos rfl, List.filter_nil, List.append_nil, List.nil_append]

/-- The findings of the directives have codes of their own. -/
lemma Tree.filter_findings_directive (t : NumberedTree) :
    (t.findings false).filter (fun x => x.violation.code = 1111 ∨ x.violation.code = 1112) =
      t.directiveFindings := by
  have hnodes := t.filter_findings_nodes (p := fun code => code = 1111 ∨ code = 1112) (by
    intro kind
    cases kind with
    | _ => simp [NodeKind.reportedCodes])
  have houtside : (outsideFindingsAll t.children).filter
      (fun x => x.violation.code = 1111 ∨ x.violation.code = 1112) = [] := by
    apply List.filter_eq_nil_iff.2
    intro x hx
    simp [code_outsideFindingsAll hx]
  have hdirectives : ∀ x ∈ t.directiveFindings,
      decide (x.violation.code = 1111 ∨ x.violation.code = 1112) = true :=
    fun x hx => decide_eq_true (code_directiveFindings hx)
  rw [findings, if_neg Bool.false_ne_true, List.filter_append, List.filter_append, hnodes,
    houtside, List.filter_eq_self.2 hdirectives, List.nil_append, List.nil_append]

/-- What is reported of the place of a node has a code of its own. -/
lemma Located.filter_findings_placement (l : Located ι) :
    l.findings.filter (fun x => x.violation.code = 1101) = l.placementFindings := by
  have hplacement : ∀ x ∈ l.placementFindings, decide (x.violation.code = 1101) = true :=
    fun x hx => decide_eq_true (code_placementFindings hx)
  cases hkind : l.node.kind with
  | enumDeclaration keyword name =>
    have henum : (Tree.enumFindings l.node.children).filter (fun x => x.violation.code = 1101) =
        [] := by
      apply List.filter_eq_nil_iff.2
      intro x hx
      have hcode := Tree.code_enumFindingsFrom hx
      intro h
      simp [of_decide_eq_true h] at hcode
    rw [findings, hkind]
    dsimp only
    rw [List.filter_append, List.filter_eq_self.2 hplacement, henum, List.append_nil]
  | callfunc | dottedSet | indexedSet | functionExpression | returnStatement | continueLoop =>
    have hnone : l.placementFindings = [] := by
      rw [placementFindings, declaration?, hkind]
    rw [hnone]
    apply List.filter_eq_nil_iff.2
    intro x hx h
    have hcode := code_findings hx
    simp [hkind, of_decide_eq_true h, NodeKind.reportedCodes] at hcode
  | _ =>
    rw [findings, hkind]
    exact List.filter_eq_self.2 hplacement

namespace Analysis

/-- The diagnostics of a file with some codes are its findings with these codes. -/
lemma filter_items_validate (a : Analysis) (typedef : Bool) (sink : Sink) (p : Nat → Bool) :
    (a.validate typedef sink).2.items.filter (fun d => p d.code) =
      ((a.tree.findings typedef).filter fun x => p x.violation.code).map
        fun finding => finding.diagnostic sink.fileId := by
  rw [items_validate, List.filter_map]
  rfl

end Analysis

end BrighterCheck
