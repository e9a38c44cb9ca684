import BrighterCheck.Proofs.Rule.Continue
import BrighterCheck.Proofs.Symbol.Tables

/-!
# What is reported of a `return`

Whether a function returns a value is decided twice: by the rule for `return`, and where the type of
a named function is registered. Both decide alike (`isVoid_iff_returnType_eq`), so that what is
reported of a `return` in a named function never contradicts the type that entering this function
records (`reportsReturns_validate`). The function is the innermost one around the statement,
whatever stands between them or around them.
-/

namespace BrighterCheck

open Ascii

variable {ι : Type}

/-- Statements that leave a function. -/
def NodeKind.isReturn : NodeKind → Bool
  | .returnStatement .. => true
  | _ => false

/--
Of the nodes `around` a place, nearest first, `function` is the innermost function, started by
`keyword`. It is what the node `definition` below `outer` defines under the name `name`.
-/
structure IsInnermostNamed (around : List (Tree ι)) (keyword name : Token)
    (function definition : Tree ι) (outer : List (Tree ι)) : Prop where
  split : ∃ inner, around = inner ++ function :: definition :: outer ∧
    ∀ t ∈ inner, t.kind.isFunctionExpression = false
  function_eq : ∃ returns, function.kind = .functionExpression keyword returns
  definition_eq : definition.kind = .function name

/--
Whatever was registered before, entering the named function `l` records under its name, in the scope
around it, the type of a function that returns `returns`. In a namespace, the same type is recorded
at the root of the file under the flattened name.
-/
def RecordsReturn (l : Located Nat) (name : Token) (returns : ScriptType) : Prop :=
  ∃ p parameters isSub, l.parent? = some p ∧ ∀ v : Validation,
    let type := ScriptType.function (some (l.flatName name)) parameters returns isSub
    (v.enter l).scopes.symbol? p.scope.node.id name.text =
      some ⟨name.text, some name.range, type⟩ ∧
    (l.namespaces ≠ [] → (v.enter l).scopes.symbol? l.root.node.id (l.flatName name) =
      some ⟨l.flatName name, some name.range, type⟩)

/--
What is to be reported of a `return` in a function that is started by `keyword` and returns
`returns`.
-/
inductive ReturnReports (keyword : Token) (returns : ScriptType) (t : Tree ι) :
    List Finding → Prop where
  | value : t.children ≠ [] → returns = .void →
      ReturnReports keyword returns t [⟨.voidReturnsValue (lower keyword.text), t.range⟩]
  | missing : t.children = [] → returns ≠ .void →
      ReturnReports keyword returns t [⟨.missingReturnValue (lower keyword.text), t.range⟩]
  | fitting : (t.children = [] ↔ returns = .void) → ReturnReports keyword returns t []

/--
Of the diagnostics `items` of the file `fileId`, those about `return` are what is to be reported of
each such statement of the tree `t`, one after the other in pre-order: nothing outside functions,
and in a named function what goes with the type that is recorded for it.
-/
structure ReportsReturns (t : NumberedTree) (fileId : Nat) (items : List Diagnostic)
    (report : Located Nat → List Finding) : Prop where
  outside : ∀ l ∈ t.located, l.node.kind.isReturn = true →
    (∀ u ∈ l.ancestors, u.kind.isFunctionExpression = false) → report l = []
  named : ∀ l ∈ t.located, l.node.kind.isReturn = true →
    ∀ keyword name function definition outer,
      IsInnermostNamed l.ancestors keyword name function definition outer →
        ⟨definition, outer⟩ ∈ t.located ∧ ∃ returns,
          RecordsReturn ⟨definition, outer⟩ name returns ∧
            ReturnReports keyword returns l.node (report l)
  items_eq : items.filter (fun d => d.code = 1107 ∨ d.code = 1108) =
    ((t.located.filter fun l => l.node.kind.isReturn).flatMap report).map
      fun finding => finding.diagnostic fileId

/-! ### The type of a function -/

/-- Of all names of types, only `void` names the type of functions without a value. -/
lemma ScriptType.ofName_eq_void_iff {name : String} :
    ofName name = .void ↔ lower name = "void" := by
  unfold ofName
  split
  all_goals simp_all [anyFunction]

namespace Located

variable {l S : Located Nat} {t : NumberedTree}

/-- The rule for `return` and the type of a function agree on which functions return nothing. -/
theorem isVoid_iff_returnType_eq {keyword : Token} {returns : Option Token} :
    isVoid keyword returns = true ↔ Tree.returnType keyword returns = .void := by
  cases returns with
  | some type =>
    have hlower : lower "void" = "void" := by decide
    rw [isVoid, Tree.returnType, ScriptType.ofName_eq_void_iff, sameWord_iff, hlower]
  | none =>
    by_cases hk : keyword.kind = .keyword .subKw
    · simp [isVoid, Tree.returnType, hk]
    · simp [isVoid, Tree.returnType, hk]

/-- Among nodes that are no function expressions, no function is found. -/
lemma findSome?_functionHead?_eq_none {ts : List (Tree ι)}
    (h : ∀ t ∈ ts, t.kind.isFunctionExpression = false) :
    (ts.map Tree.kind).findSome? functionHead? = none := by
  apply List.findSome?_eq_none_iff.2
  intro kind hkind
  obtain ⟨t, ht, rfl⟩ := List.mem_map.1 hkind
  have hother := h t ht
  cases hk : t.kind with
  | functionExpression =>
    rw [hk] at hother
    cases hother
  | _ => rfl

/-- The innermost function expression around a node is the one that its `return` is checked by. -/
lemma enclosingFunction?_of_split {l : Located ι} {inner outer : List (Tree ι)}
    {function : Tree ι} {keyword : Token} {returns : Option Token}
    (hsplit : l.ancestors = inner ++ function :: outer)
    (hinner : ∀ t ∈ inner, t.kind.isFunctionExpression = false)
    (hfunction : function.kind = .functionExpression keyword returns) :
    l.enclosingFunction? = some (keyword, returns) := by
  rw [enclosingFunction?_eq, hsplit, List.map_append, List.map_cons, List.findSome?_append,
    findSome?_functionHead?_eq_none hinner, hfunction]
  rfl

/-- Outside functions, nothing is reported. -/
lemma returnFindings_eq_nil {l : Located ι}
    (h : ∀ t ∈ l.ancestors, t.kind.isFunctionExpression = false) : l.returnFindings = [] := by
  rw [returnFindings, enclosingFunction?_eq, findSome?_functionHead?_eq_none h]

/-- The rule reports what goes with the type that the function returns. -/
lemma returnReports_returnFindings {l : Located ι} {keyword : Token} {returns : Option Token}
    (h : l.enclosingFunction? = some (keyword, returns)) :
    ReturnReports keyword (Tree.returnType keyword returns) l.node l.returnFindings := by
  rw [returnFindings, h]
  dsimp only
  cases hvoid : isVoid keyword returns with
  | true =>
    have htype := isVoid_iff_returnType_eq.1 hvoid
    cases hchildren : l.node.children with
    | nil => exact .fitting (iff_of_true hchildren htype)
    | cons value rest => exact .value (hchildren ▸ List.cons_ne_nil _ _) htype
  | false =>
    have htype : Tree.returnType keyword returns ≠ .void := by
      intro htype
      rw [isVoid_iff_returnType_eq.2 htype] at hvoid
      cases hvoid
    cases hchildren : l.node.children with
    | nil => exact .missing hchildren htype
    | cons value rest => exact .fitting (iff_of_false (hchildren ▸ List.cons_ne_nil _ _) htype)

/-- What a node other than a function expression declares is found once the node was entered. -/
lemma Declares.symbol?_enter {e : SymbolEntry} (h : t.IsScript) (hl : l ∈ t.located)
    (hf : ¬ l.node.IsFunction) (hd : l.Declares S e) (v : Validation) :
    (v.enter l).scopes.symbol? S.node.id e.name = some e := by
  have hS := (hd.isScope h hl).1
  rw [v.scopes_enter, Scopes.foldl_register_of_yields (arePlain_registrations h hl hf).yields,
    Scopes.symbol?_addAll (pairwise_registrations h hl)]
  exact .inl ((Tabulated.exists_writes_iff h hl hS).2 ⟨hd, sameWord_iff.2 rfl⟩)

/-- A named function records the type of its function expression. -/
lemma recordsReturn {name keyword : Token} {returns : Option Token} {function : NumberedTree}
    (h : t.IsScript) (hl : l ∈ t.located) (hk : l.node.kind = .function name)
    (hfunction : function ∈ l.node.children)
    (hkind : function.kind = .functionExpression keyword returns) :
    RecordsReturn l name (Tree.returnType keyword returns) := by
  have hshaped := h.isShaped l.node (node_mem_preorder hl)
  rw [Tree.IsShaped, hk] at hshaped
  obtain ⟨f, hchildren, -⟩ := hshaped
  rw [hchildren, List.mem_singleton] at hfunction
  subst hfunction
  cases hp : l.parent? with
  | none =>
    -- The root is a body, so that a named function has a parent.
    have hroot : l.ancestors = [] := by
      cases ha : l.ancestors with
      | nil => rfl
      | cons p above =>
        rw [parent?, ha] at hp
        cases hp
    have hbody := h.kind_eq
    rw [← Tree.node_eq_of_ancestors_eq_nil hl hroot, hk] at hbody
    cases hbody
  | some p =>
    have hother : ¬ l.node.IsFunction := by
      intro hf
      obtain ⟨keyword', returns', hk'⟩ := hf
      cases hk.symm.trans hk'
    have hsignature := Tree.signature_eq (l.flatName name) hkind
    rw [← Tree.firstChild_eq hchildren] at hsignature
    refine ⟨p, l.node.firstChild.children.filterMap Tree.parameter?,
      keyword.kind = .keyword .subKw, hp, fun v => ?_⟩
    rw [← hsignature]
    constructor
    · exact (Declares.function hp hk).symbol?_enter h hl hother v
    · intro hnamespaces
      exact (Declares.flattened hk hnamespaces).symbol?_enter h hl hother v

end Located

namespace ParsedFile

variable {source : String} {f : ParsedFile}

/--
Whatever tables and diagnostics a file had before, validation reports of each `return` in a named
function that it has a value, exactly if the type that is recorded for the function returns nothing,
and that its value is missing, exactly if that type returns something; and it reports nothing of a
`return` outside functions.
-/
theorem reportsReturns_validate (h : ofSource source = .ok f) (scopes : Scopes) (typedef : Bool)
    (sink : Sink) :
    ∃ report, ReportsReturns f.tree sink.fileId
      (Analysis.validate ⟨f.tree, scopes⟩ typedef sink).2.items report := by
  have hscript := isScript h
  have hfindings : ∀ l : Located Nat, l.node.kind.isReturn = true →
      l.findings = l.returnFindings := by
    intro l hl
    cases hk : l.node.kind with
    | returnStatement => rw [Located.findings, hk]
    | _ =>
      rw [hk] at hl
      cases hl
  refine ⟨Located.findings, ?_, ?_, ?_⟩
  · intro l _ hkind houtside
    rw [hfindings l hkind]
    exact Located.returnFindings_eq_nil houtside
  · intro l hl hkind keyword name function definition outer hnamed
    obtain ⟨⟨inner, hsplit, hinner⟩, ⟨returns, hfunction⟩, hdefinition⟩ := hnamed
    have hlocated : ⟨function, definition :: outer⟩ ∈ f.tree.located :=
      Tree.ancestor_mem_located hl ⟨inner, hsplit.symm⟩
    obtain ⟨hmem, hchild⟩ := Tree.parent_mem_located hlocated rfl
    rw [hfindings l hkind]
    exact ⟨hmem, Tree.returnType keyword returns,
      Located.recordsReturn hscript hmem hdefinition hchild hfunction,
      Located.returnReports_returnFindings
        (Located.enclosingFunction?_of_split hsplit hinner hfunction)⟩
  · have hcodes : ∀ kind : NodeKind, ∀ code ∈ kind.reportedCodes,
        decide (code = 1107 ∨ code = 1108) = kind.isReturn := by
      intro kind
      cases kind <;> simp [NodeKind.reportedCodes, NodeKind.isReturn]
    rw [← f.tree.filter_findings hcodes (by decide) typedef]
    exact Analysis.filter_items_validate _ typedef sink fun code => code = 1107 ∨ code = 1108

/-- A function in a `sub`, which returns nothing whatever the letter case of its type is. -/
theorem reportsReturns_validate_of_nested :
    ∃ f, ofSource "sub a() as VOID\nb = function()\nreturn\nend function\nreturn 1\nend sub" =
        .ok f ∧
      ∀ scopes typedef sink,
        (∃ report, ReportsReturns f.tree sink.fileId
          (Analysis.validate ⟨f.tree, scopes⟩ typedef sink).2.items report) ∧
        (Analysis.validate ⟨f.tree, scopes⟩ typedef sink).2.items.filter
          (fun d => d.code = 1107 ∨ d.code = 1108) =
            [Finding.diagnostic ⟨.missingReturnValue "function", some ⟨⟨2, 0⟩, ⟨2, 6⟩⟩⟩ sink.fileId,
              Finding.diagnostic ⟨.voidReturnsValue "sub", some ⟨⟨4, 0⟩, ⟨4, 8⟩⟩⟩ sink.fileId] := by
  have hfindings : (ofSource
      "sub a() as VOID\nb = function()\nreturn\nend function\nreturn 1\nend sub").toOption.any
        fun f => ∀ typedef, (f.tree.findings typedef).filter
          (fun x => x.violation.code = 1107 ∨ x.violation.code = 1108) =
            [⟨.missingReturnValue "function", some ⟨⟨2, 0⟩, ⟨2, 6⟩⟩⟩,
              ⟨.voidReturnsValue "sub", some ⟨⟨4, 0⟩, ⟨4, 8⟩⟩⟩] := by
    decide +kernel
  obtain ⟨f, hf, hfindings⟩ := exists_of_any hfindings
  refine ⟨f, hf, fun scopes typedef sink =>
    ⟨reportsReturns_validate hf scopes typedef sink, ?_⟩⟩
  have hitems := Analysis.filter_items_validate ⟨f.tree, scopes⟩ typedef sink
    fun code => code = 1107 ∨ code = 1108
  exact hitems.trans (congrArg _ (of_decide_eq_true hfindings typedef))

end ParsedFile

end BrighterCheck
