import BrighterCheck.Proofs.Rule.Origin
import BrighterCheck.Proofs.Tree.Nesting

/-!
# What is reported of statements and declarations in the wrong place

Two rules judge where a node stands. One goes through the statements outside functions, those of
namespaces included, and may do so with a stack (`StatementLoop.runs`); the other looks at the two
nodes above a declaration. Told by the ancestors of a node, both report certain nodes of the tree,
once each, and no node is reported by both (`reportsPlacement_validate`).
-/

namespace BrighterCheck

variable {ι : Type}

/--
Whether a node with these ancestors stands directly in the root body, or directly in the body of a
namespace that does, through any number of namespaces.
-/
def standsOutside : List (Tree ι) → Bool
  | [] => false
  | [root] => root.kind.isBody
  | body :: parent :: above => body.kind.isBody && parent.kind.isNamespace && standsOutside above

/-- Whether the parent of a node with these ancestors is the root body or that of a namespace. -/
def standsAtNamespaceLevel : List (Tree ι) → Bool
  | [] => false
  | [root] => root.kind.isBody
  | body :: parent :: _ => body.kind.isBody && parent.kind.isNamespace

namespace Located

/-- A statement outside functions that may stand in functions only. -/
def isStray (l : Located ι) : Bool :=
  standsOutside l.ancestors && !l.node.kind.isNamespace && !l.node.kind.isAllowedOutsideFunctions

/-- A declaration that stands neither at the root nor in a namespace. -/
def isMisplaced (l : Located ι) : Bool :=
  l.node.kind.isDeclaration && !standsAtNamespaceLevel l.ancestors

end Located

/-- A loop over statements: those that are left, the next one first, and what was reported. -/
structure StatementLoop (ι : Type) where
  pending : List (Tree ι)
  reported : List Finding

namespace StatementLoop

/--
One round of the loop: the statements of a namespace take its place, and another statement is
reported unless it may stand outside functions.
-/
def next? : StatementLoop ι → Option (StatementLoop ι)
  | ⟨[], _⟩ => none
  | ⟨⟨_, .namespaceDeclaration _, _, [_, ⟨_, .body, _, statements⟩]⟩ :: rest, reported⟩ =>
    some ⟨statements ++ rest, reported⟩
  | ⟨t :: rest, reported⟩ =>
    if t.kind.isNamespace || t.kind.isAllowedOutsideFunctions then some ⟨rest, reported⟩
    else some ⟨rest, reported ++ [⟨.outsideFunction, t.range⟩]⟩

/-- The loop comes from one state to another in any number of rounds. -/
def Runs : StatementLoop ι → StatementLoop ι → Prop :=
  Relation.ReflTransGen fun s s' => s.next? = some s'

end StatementLoop

/--
The diagnostics `items` of the file `fileId` about places are those of the nodes of the tree `t`
that stand in the wrong place.
-/
structure ReportsPlacement (t : NumberedTree) (fileId : Nat) (items : List Diagnostic) : Prop where
  /-- No place is listed twice. -/
  nodup : t.located.Nodup
  stray : items.filter (fun d => d.code = 1110) =
    (t.located.filter Located.isStray).map fun l =>
      Finding.diagnostic ⟨.outsideFunction, l.node.range⟩ fileId
  /-- Statements are reported in the order of the source. -/
  ordered : (items.filter fun d => d.code = 1110).Pairwise fun d e =>
    ∀ r ∈ d.range, ∀ s ∈ e.range, r.finish ≤ s.start
  /-- The loop over the statements of the root comes to an end with the same findings. -/
  loop : ∃ reported, StatementLoop.Runs ⟨t.children, []⟩ ⟨[], reported⟩ ∧
    items.filter (fun d => d.code = 1110) = reported.map fun x => x.diagnostic fileId
  misplaced : ∃ report : Located Nat → List Finding,
    (∀ l ∈ t.located, l.isMisplaced = true → ∃ keyword name, l.declaration? = some (keyword, name) ∧
      report l = [⟨.misplacedDeclaration (Ascii.lower keyword.text),
        Range.bounding [some keyword.range, name]⟩]) ∧
    items.filter (fun d => d.code = 1101) =
      ((t.located.filter Located.isMisplaced).flatMap report).map fun x => x.diagnostic fileId
  /-- No node is reported by both rules. -/
  disjoint : ∀ l ∈ t.located, ¬ (l.isStray = true ∧ l.isMisplaced = true)

/-! ### The loop -/

namespace StatementLoop

/-- A statement that is no namespace with a body is reported, or it is passed over. -/
lemma next?_cons {t : Tree ι} {rest : List (Tree ι)} {reported : List Finding}
    (hn : ∀ keyword name id range statements, t.kind = .namespaceDeclaration keyword →
      t.children = [name, ⟨id, .body, range, statements⟩] → False) :
    next? ⟨t :: rest, reported⟩ =
      if t.kind.isNamespace || t.kind.isAllowedOutsideFunctions then some ⟨rest, reported⟩
      else some ⟨rest, reported ++ [⟨.outsideFunction, t.range⟩]⟩ := by
  apply next?.eq_3
  intro id keyword range name id' range' statements ht
  subst ht
  exact hn _ _ _ _ _ rfl rfl

/-- The loop works off some statements, whatever is pending behind them, and reports what is due. -/
theorem runs (ts : List (Tree ι)) :
    ∀ rest reported,
      Runs ⟨ts ++ rest, reported⟩ ⟨rest, reported ++ Tree.outsideFindingsAll ts⟩ := by
  induction ts using Tree.outsideFindingsAll.induct
    (fun t => ∀ rest reported,
      Runs ⟨t :: rest, reported⟩ ⟨rest, reported ++ t.outsideFindings⟩) with
  | case1 id keyword range name id' range' statements ih rest reported =>
    have hstatements := ih rest reported
    rw [Tree.outsideFindings]
    exact .head rfl hstatements
  | case2 id kind range children hn hallowed rest reported =>
    rw [Tree.outsideFindings.eq_2 _ _ _ _ hn, if_pos hallowed, List.append_nil]
    apply Relation.ReflTransGen.single
    rw [next?_cons hn]
    exact if_pos hallowed
  | case3 id kind range children hn hallowed rest reported =>
    rw [Tree.outsideFindings.eq_2 _ _ _ _ hn, if_neg hallowed]
    apply Relation.ReflTransGen.single
    rw [next?_cons hn]
    exact if_neg hallowed
  | case4 =>
    intro rest reported
    rw [Tree.outsideFindingsAll, List.append_nil]
    exact .refl
  | case5 t ts iht ihts =>
    intro rest reported
    rw [Tree.outsideFindingsAll, ← List.append_assoc]
    exact (iht (ts ++ rest) reported).trans (ihts rest _)

end StatementLoop

/-! ### Statements outside functions by their ancestors -/

section Ancestors

variable {above : List (Tree ι)} {t : Tree ι}

/-- What stands directly in a node that stands outside functions does not, unless through a body. -/
lemma standsOutside_cons (h : standsOutside above = true) : standsOutside (t :: above) = false := by
  match above, h with
  | [root], _ => simp [standsOutside]
  | body :: parent :: above, h =>
    have hbody : body.kind.isBody = true := by
      simp only [standsOutside, Bool.and_eq_true] at h
      exact h.1.1
    cases hk : body.kind with
    | body => simp [standsOutside, hk, NodeKind.isNamespace]
    | _ =>
      rw [hk] at hbody
      cases hbody

/--
Below a node in which nothing stands directly outside functions, nothing does at all, unless the
node is a namespace that stands outside functions itself.
-/
lemma standsOutside_below (h : standsOutside (t :: above) = false)
    (hn : t.kind.isNamespace = true → standsOutside above = false) :
    ∀ l ∈ t.children.flatMap (Tree.locatedBelow (t :: above)),
      standsOutside l.ancestors = false := by
  induction t using Tree.induction generalizing above with
  | node t ih =>
    intro l hl
    obtain ⟨u, hu, hl⟩ := List.mem_flatMap.1 hl
    rw [Tree.locatedBelow_eq] at hl
    cases List.mem_cons.1 hl with
    | inl hl =>
      subst hl
      exact h
    | inr hl =>
      refine ih u hu ?_ (fun _ => h) l hl
      cases hk : t.kind.isNamespace with
      | false => simp [standsOutside, hk]
      | true => simp [standsOutside, hn hk]

end Ancestors

lemma filter_isStray_eq_nil {ls : List (Located ι)}
    (h : ∀ l ∈ ls, standsOutside l.ancestors = false) : ls.filter Located.isStray = [] := by
  apply List.filter_eq_nil_iff.2
  intro l hl
  simp [Located.isStray, h l hl]

/-- Outside functions, of a statement that is no namespace nothing but itself can be stray. -/
lemma filter_isStray_statement {t : Tree ι} {above : List (Tree ι)}
    (h : standsOutside above = true) (hk : t.kind.isNamespace = false) :
    (t.locatedBelow above).filter Located.isStray =
      if t.kind.isAllowedOutsideFunctions then [] else [⟨t, above⟩] := by
  have hbelow : (t.children.flatMap (Tree.locatedBelow (t :: above))).filter
      Located.isStray = [] := by
    apply filter_isStray_eq_nil
    apply standsOutside_below (standsOutside_cons h)
    exact fun hk' => nomatch hk.symm.trans hk'
  rw [Tree.locatedBelow_eq, List.filter_cons, hbelow]
  cases hallowed : t.kind.isAllowedOutsideFunctions with
  | false => simp [Located.isStray, h, hk, hallowed]
  | true => simp [Located.isStray, hallowed]

/-- In a namespace outside functions, the stray nodes are those among the statements of its body. -/
lemma filter_isStray_namespace {t name body : Tree ι} {above : List (Tree ι)}
    (h : standsOutside above = true) (hk : t.kind.isNamespace = true)
    (hc : t.children = [name, body]) (hname : name.kind.isBody = false) :
    (t.locatedBelow above).filter Located.isStray =
      (body.children.flatMap (Tree.locatedBelow (body :: t :: above))).filter Located.isStray := by
  have hparts : standsOutside (t :: above) = false := standsOutside_cons h
  have hnode {u : Tree ι} : ¬ Located.isStray ⟨u, t :: above⟩ = true := by
    simp [Located.isStray, hparts]
  have hself : ¬ Located.isStray ⟨t, above⟩ = true := by
    simp [Located.isStray, hk]
  have hbelow : (name.children.flatMap (Tree.locatedBelow (name :: t :: above))).filter
      Located.isStray = [] := by
    apply filter_isStray_eq_nil
    apply standsOutside_below
    · simp [standsOutside, hname]
    · exact fun _ => hparts
  rw [Tree.locatedBelow_eq, List.filter_cons_of_neg hself, hc, List.flatMap_cons,
    List.flatMap_singleton, List.filter_append, Tree.locatedBelow_eq name,
    List.filter_cons_of_neg hnode, hbelow, Tree.locatedBelow_eq body,
    List.filter_cons_of_neg hnode, List.nil_append]

/-- The findings of statements outside functions are those of the stray nodes among them. -/
lemma map_filter_isStray (ts : List NumberedTree) :
    ∀ above, standsOutside above = true → (∀ u ∈ Tree.preorderAll ts, u.IsNested) →
      ((ts.flatMap (Tree.locatedBelow above)).filter Located.isStray).map
        (fun l => (⟨.outsideFunction, l.node.range⟩ : Finding)) = Tree.outsideFindingsAll ts := by
  induction ts using Tree.outsideFindingsAll.induct
    (fun t => ∀ above, standsOutside above = true → (∀ u ∈ t.preorder, u.IsNested) →
      ((t.locatedBelow above).filter Located.isStray).map
        (fun l => (⟨.outsideFunction, l.node.range⟩ : Finding)) = t.outsideFindings) with
  | case1 id keyword range name id' range' statements ih above habove hnested =>
    obtain ⟨-, hstatements⟩ := Tree.IsNested.of_child hnested (.tail _ (.head _))
    obtain ⟨_, _, hchildren, hname, -⟩ := (hnested _ (Tree.self_mem_preorder _)).namespaces rfl
    cases hchildren
    rw [Tree.outsideFindings, filter_isStray_namespace habove rfl rfl hname]
    apply ih _ _ hstatements
    simpa [standsOutside, NodeKind.isBody, NodeKind.isNamespace] using habove
  | case2 id kind range children hn hallowed above habove hnested =>
    have hkind : kind.isNamespace = false :=
      (hnested _ (Tree.self_mem_preorder _)).isNamespace_eq_false hn
    rw [Tree.outsideFindings.eq_2 _ _ _ _ hn, if_pos hallowed,
      filter_isStray_statement habove hkind]
    rw [hkind, Bool.false_or] at hallowed
    simp [hallowed]
  | case3 id kind range children hn hallowed above habove hnested =>
    have hkind : kind.isNamespace = false :=
      (hnested _ (Tree.self_mem_preorder _)).isNamespace_eq_false hn
    rw [Tree.outsideFindings.eq_2 _ _ _ _ hn, if_neg hallowed,
      filter_isStray_statement habove hkind]
    rw [hkind, Bool.false_or] at hallowed
    simp [hallowed]
  | case4 => exact fun _ _ _ => rfl
  | case5 t ts iht ihts =>
    intro above habove hnested
    have ht := iht above habove fun u hu => hnested u (List.mem_append_left _ hu)
    have hts := ihts above habove fun u hu => hnested u (List.mem_append_right _ hu)
    rw [Tree.outsideFindingsAll, ← ht, ← hts, List.flatMap_cons, List.filter_append,
      List.map_append]

/-- The first of two findings ends before the second one starts, if both have ranges. -/
def Finding.Precedes (x y : Finding) : Prop :=
  ∀ r ∈ x.range, ∀ s ∈ y.range, r.finish ≤ s.start

/-- The range of a finding lies in that of a node. -/
def Finding.LiesIn (x : Finding) (t : NumberedTree) : Prop :=
  ∀ s ∈ x.range, ∃ r ∈ t.range, r.Covers s

/-- Statements outside functions are reported in the order of the source. -/
lemma ordered_outsideFindingsAll (ts : List NumberedTree) :
    InOrder ts → (∀ u ∈ Tree.preorderAll ts, u.IsNested) →
      (Tree.outsideFindingsAll ts).Pairwise Finding.Precedes ∧
        ∀ x ∈ Tree.outsideFindingsAll ts, ∃ t ∈ ts, x.LiesIn t := by
  induction ts using Tree.outsideFindingsAll.induct
    (fun t => (∀ u ∈ t.preorder, u.IsNested) →
      t.outsideFindings.Pairwise Finding.Precedes ∧ ∀ x ∈ t.outsideFindings, x.LiesIn t) with
  | case1 id keyword range name id' range' statements ih hnested =>
    obtain ⟨hbody, hstatements⟩ := Tree.IsNested.of_child hnested (.tail _ (.head _))
    obtain ⟨_, _, hchildren, -, -, hcovers⟩ :=
      (hnested _ (Tree.self_mem_preorder _)).namespaces rfl
    cases hchildren
    obtain ⟨horder, hwithin⟩ := hbody.bodies rfl
    obtain ⟨hpairwise, hlies⟩ := ih horder hstatements
    rw [Tree.outsideFindings]
    refine ⟨hpairwise, ?_⟩
    intro x hx s hs
    obtain ⟨u, hu, hxu⟩ := hlies x hx
    obtain ⟨r, hr, hrs⟩ := hxu s hs
    obtain ⟨b, hb, hbr⟩ := hwithin u hu r hr
    obtain ⟨c, hc, hcb⟩ := hcovers b hb
    exact ⟨c, hc, hcb.trans (hbr.trans hrs)⟩
  | case2 id kind range children hn hallowed hnested =>
    rw [Tree.outsideFindings.eq_2 _ _ _ _ hn, if_pos hallowed]
    exact ⟨.nil, List.forall_mem_nil _⟩
  | case3 id kind range children hn hallowed hnested =>
    rw [Tree.outsideFindings.eq_2 _ _ _ _ hn, if_neg hallowed]
    refine ⟨List.pairwise_singleton _ _, ?_⟩
    intro x hx s hs
    cases List.mem_singleton.1 hx
    exact ⟨s, hs, .refl s⟩
  | case4 =>
    intro _ _
    rw [Tree.outsideFindingsAll]
    exact ⟨.nil, List.forall_mem_nil _⟩
  | case5 t ts iht ihts =>
    intro horder hnested
    obtain ⟨hfirst, hrest⟩ := List.pairwise_cons.1 horder
    obtain ⟨htpairwise, htlies⟩ := iht fun u hu => hnested u (List.mem_append_left _ hu)
    obtain ⟨hpairwise, hlies⟩ := ihts hrest fun u hu => hnested u (List.mem_append_right _ hu)
    rw [Tree.outsideFindingsAll]
    constructor
    · apply List.pairwise_append.2 ⟨htpairwise, hpairwise, ?_⟩
      intro x hx y hy r hr s hs
      obtain ⟨u, hu, hyu⟩ := hlies y hy
      obtain ⟨c, hc, hcr⟩ := htlies x hx r hr
      obtain ⟨d, hd, hds⟩ := hyu s hs
      exact hcr.2.trans ((hfirst u hu c hc d hd).trans hds.1)
    · intro x hx
      cases List.mem_append.1 hx with
      | inl hx => exact ⟨t, .head _, htlies x hx⟩
      | inr hx =>
        obtain ⟨u, hu, hxu⟩ := hlies x hx
        exact ⟨u, .tail _ hu, hxu⟩

/-! ### Declarations -/

namespace Located

variable {l : Located ι}

/-- A node is a declaration if the rule for declarations asks where it stands. -/
lemma declaration?_eq_none (h : l.node.kind.isDeclaration = false) : l.declaration? = none := by
  unfold declaration?
  split
  all_goals simp_all [NodeKind.isDeclaration]

lemma exists_declaration?_eq (hs : l.node.IsShaped) (h : l.node.kind.isDeclaration = true) :
    ∃ keyword name, l.declaration? = some (keyword, name) := by
  unfold declaration?
  cases hk : l.node.kind with
  | enumDeclaration keyword name | classDeclaration keyword name
  | interfaceDeclaration keyword name | constDeclaration keyword name => exact ⟨_, _, rfl⟩
  | function name =>
    rw [Tree.IsShaped, hk] at hs
    obtain ⟨⟨id, kind, range, parts⟩, hchildren, keyword, returns, hf⟩ := hs
    cases hf
    rw [hchildren]
    exact ⟨_, _, rfl⟩
  | namespaceDeclaration keyword =>
    rw [Tree.IsShaped, hk] at hs
    obtain ⟨name, body, hchildren, -⟩ := hs
    rw [hchildren]
    exact ⟨_, _, rfl⟩
  | _ =>
    rw [hk] at h
    cases h

lemma isNamespaceLevel_eq (l : Located ι) :
    l.isNamespaceLevel = standsAtNamespaceLevel l.ancestors := by
  obtain ⟨node, ancestors⟩ := l
  match ancestors with
  | [] => rfl
  | [root] =>
    cases hk : root.kind with
    | _ => simp [isNamespaceLevel, standsAtNamespaceLevel, opensScope, hk, NodeKind.isBody]
  | body :: parent :: above =>
    cases hk : body.kind with
    | _ => simp [isNamespaceLevel, standsAtNamespaceLevel, opensScope, hk, NodeKind.isBody]

/-- Nothing is reported of the place of a node that is not misplaced. -/
lemma placementFindings_eq_nil (h : l.isMisplaced = false) : l.placementFindings = [] := by
  unfold placementFindings
  cases hkind : l.node.kind.isDeclaration with
  | false => rw [declaration?_eq_none hkind]
  | true =>
    have hlevel : l.isNamespaceLevel = true := by
      simpa [isMisplaced, hkind, isNamespaceLevel_eq] using h
    split
    · rfl
    · exact if_pos hlevel

/-- A misplaced declaration is reported from the word that it starts with to its name. -/
lemma placementFindings_of_isMisplaced (hs : l.node.IsShaped) (h : l.isMisplaced = true) :
    ∃ keyword name, l.declaration? = some (keyword, name) ∧
      l.placementFindings = [⟨.misplacedDeclaration (Ascii.lower keyword.text),
        Range.bounding [some keyword.range, name]⟩] := by
  obtain ⟨hkind, hlevel⟩ := Bool.and_eq_true_iff.1 h
  rw [← isNamespaceLevel_eq] at hlevel
  obtain ⟨keyword, name, hdeclaration⟩ := exists_declaration?_eq hs hkind
  refine ⟨keyword, name, hdeclaration, ?_⟩
  rw [placementFindings, hdeclaration]
  exact if_neg (by simpa using hlevel)

/-- A stray statement is no declaration. -/
lemma not_isMisplaced_of_isStray (h : l.isStray = true) : ¬ l.isMisplaced = true := by
  intro hm
  simp only [isStray, isMisplaced, Bool.and_eq_true, Bool.not_eq_true'] at h hm
  obtain ⟨⟨-, hnamespace⟩, hallowed⟩ := h
  cases hk : l.node.kind with
  | namespaceDeclaration =>
    rw [hk] at hnamespace
    cases hnamespace
  | function | classDeclaration | enumDeclaration | interfaceDeclaration | constDeclaration =>
    rw [hk] at hallowed
    cases hallowed
  | _ =>
    rw [hk] at hm
    cases hm.1

end Located

namespace ParsedFile

variable {source : String} {f : ParsedFile}

/-- In a file that was read, the stray nodes are what the rule for statements reports. -/
lemma outsideFindingsAll_eq (h : ofSource source = .ok f) :
    Tree.outsideFindingsAll f.tree.children =
      (f.tree.located.filter Located.isStray).map fun l => ⟨.outsideFunction, l.node.range⟩ := by
  have hroot : standsOutside [f.tree] = true := by
    rw [standsOutside, (isScript h).kind_eq]
    rfl
  have hself : ¬ Located.isStray ⟨f.tree, []⟩ = true := by
    simp [Located.isStray, standsOutside]
  rw [← map_filter_isStray f.tree.children _ hroot (isNested_below h), Tree.located,
    Tree.locatedBelow_eq, List.filter_cons_of_neg hself]

/--
Whatever tables and diagnostics a file had before, validation reports once each, in the order of the
source, the statements that stand outside functions and may not, and once each, in pre-order, the
declarations whose parent is neither the root body nor the body of a namespace. A loop with a stack
finds the same statements.
-/
theorem reportsPlacement_validate (h : ofSource source = .ok f) (scopes : Scopes) (typedef : Bool)
    (sink : Sink) :
    ReportsPlacement f.tree sink.fileId
      (Analysis.validate ⟨f.tree, scopes⟩ typedef sink).2.items := by
  have hscript := isScript h
  have hitems : (Analysis.validate ⟨f.tree, scopes⟩ typedef sink).2.items.filter
      (fun d => d.code = 1110) = (Tree.outsideFindingsAll f.tree.children).map
        fun x => x.diagnostic sink.fileId := by
    rw [← f.tree.filter_findings_outside typedef]
    exact Analysis.filter_items_validate _ typedef sink fun code => code = 1110
  constructor
  case nodup => exact Tree.nodup_located hscript.nodup
  case stray =>
    rw [hitems, outsideFindingsAll_eq h, List.map_map]
    rfl
  case ordered =>
    rw [hitems]
    have horder := ((isNested h _ f.tree.self_mem_preorder).bodies hscript.kind_eq).1
    exact List.pairwise_map.2 (ordered_outsideFindingsAll _ horder (isNested_below h)).1
  case loop =>
    have hruns := StatementLoop.runs f.tree.children [] []
    rw [List.append_nil, List.nil_append] at hruns
    exact ⟨_, hruns, hitems⟩
  case misplaced =>
    refine ⟨Located.placementFindings, ?_, ?_⟩
    · intro l hl hmisplaced
      exact Located.placementFindings_of_isMisplaced
        (hscript.isShaped l.node ((Tree.preorder_sublist hl).subset l.node.self_mem_preorder))
        hmisplaced
    · have hfindings : (f.tree.findings typedef).filter (fun x => x.violation.code = 1101) =
          (f.tree.located.filter Located.isMisplaced).flatMap Located.placementFindings := by
        have hnodes := Tree.filter_findings_eq_flatMap (p := fun code => code = 1101) (by decide)
          f.tree typedef
        rw [hnodes, flatMap_filter]
        apply List.flatMap_congr
        intro l _
        rw [l.filter_findings_placement]
        cases hmisplaced : l.isMisplaced with
        | false => exact Located.placementFindings_eq_nil hmisplaced
        | true => rfl
      rw [← hfindings]
      exact Analysis.filter_items_validate _ typedef sink fun code => code = 1101
  case disjoint =>
    intro l _ hboth
    exact Located.not_isMisplaced_of_isStray hboth.1 hboth.2

/-- Statements in nested namespaces and behind them, and a class in a loop. -/
theorem reportsPlacement_validate_of_nested :
    ∃ f, ofSource ("namespace a\nx = 1\nnamespace b\nwhile true\nclass c\nend class\nend while\n" ++
        "end namespace\nend namespace\ny = 2") = .ok f ∧
      ∀ scopes typedef sink,
        ReportsPlacement f.tree sink.fileId
          (Analysis.validate ⟨f.tree, scopes⟩ typedef sink).2.items ∧
        (Analysis.validate ⟨f.tree, scopes⟩ typedef sink).2.items.filter
          (fun d => d.code = 1101 ∨ d.code = 1110) =
            [Finding.diagnostic ⟨.misplacedDeclaration "class", some ⟨⟨4, 0⟩, ⟨4, 7⟩⟩⟩ sink.fileId,
              Finding.diagnostic ⟨.outsideFunction, some ⟨⟨1, 0⟩, ⟨1, 5⟩⟩⟩ sink.fileId,
              Finding.diagnostic ⟨.outsideFunction, some ⟨⟨3, 0⟩, ⟨6, 9⟩⟩⟩ sink.fileId,
              Finding.diagnostic ⟨.outsideFunction, some ⟨⟨9, 0⟩, ⟨9, 5⟩⟩⟩ sink.fileId] := by
  have hfindings : (ofSource
      ("namespace a\nx = 1\nnamespace b\nwhile true\nclass c\nend class\nend while\n" ++
        "end namespace\nend namespace\ny = 2")).toOption.any
        fun f => ∀ typedef, (f.tree.findings typedef).filter
          (fun x => x.violation.code = 1101 ∨ x.violation.code = 1110) =
            [⟨.misplacedDeclaration "class", some ⟨⟨4, 0⟩, ⟨4, 7⟩⟩⟩,
              ⟨.outsideFunction, some ⟨⟨1, 0⟩, ⟨1, 5⟩⟩⟩,
              ⟨.outsideFunction, some ⟨⟨3, 0⟩, ⟨6, 9⟩⟩⟩,
              ⟨.outsideFunction, some ⟨⟨9, 0⟩, ⟨9, 5⟩⟩⟩] := by
    decide +kernel
  obtain ⟨f, hf, hfindings⟩ := exists_of_any hfindings
  refine ⟨f, hf, fun scopes typedef sink =>
    ⟨reportsPlacement_validate hf scopes typedef sink, ?_⟩⟩
  have hitems := Analysis.filter_items_validate ⟨f.tree, scopes⟩ typedef sink
    fun code => code = 1101 ∨ code = 1110
  exact hitems.trans (congrArg _ (of_decide_eq_true hfindings typedef))

end ParsedFile

end BrighterCheck
