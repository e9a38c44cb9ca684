import BrighterCheck.Proofs.Rule.Alignment
import BrighterCheck.Proofs.Rule.Origin

/-!
# What is reported of a `continue`

Of every `continue` of a file at most one thing is reported: that there is no loop around it, or
that it names another kind of loop than the innermost one (`reportsContinues_validate`). The loop is
sought among all nodes around the statement, those around its function included, so that a function
within a loop may go on with that loop (`not_reportsContinues_withinFunction`).
-/

namespace BrighterCheck

variable {ι : Type}

/-- Statements that go on with the next round of a loop. -/
def NodeKind.isContinue : NodeKind → Bool
  | .continueLoop .. => true
  | _ => false

/-- Functions, named or not. -/
def NodeKind.isFunctionExpression : NodeKind → Bool
  | .functionExpression .. => true
  | _ => false

/-- The ancestors of a node within the innermost function around it. -/
def Located.withinFunction (l : Located ι) : List (Tree ι) :=
  l.ancestors.takeWhile fun t => !t.kind.isFunctionExpression

/-- Of the nodes `around` a place, nearest first, the innermost loop. -/
def IsInnermostLoop (around : List (Tree ι)) (loop : Tree ι) : Prop :=
  ∃ inner outer, around = inner ++ loop :: outer ∧ loop.kind.isLoop = true ∧
    ∀ t ∈ inner, t.kind.isLoop = false

/-- What is to be reported of a `continue`, if its loop is one of the nodes `around`. -/
inductive ContinueReports (around : List (Tree ι)) (l : Located ι) : List Finding → Prop where
  | outside {keyword : Token} {stated : Option Token} {range : Range} :
      l.node.kind = .continueLoop keyword stated → l.node.range = some range →
      (∀ t ∈ around, t.kind.isLoop = false) →
      ContinueReports around l [⟨.illegalContinue, some range⟩]
  | other {keyword stated : Token} {loop : Tree ι} :
      l.node.kind = .continueLoop keyword (some stated) → IsInnermostLoop around loop →
      Ascii.lower stated.text ≠ Located.loopWord loop.kind →
      ContinueReports around l
        [⟨.expectedToken (Located.loopWord loop.kind), some stated.range⟩]
  | fitting {keyword : Token} {stated : Option Token} {loop : Tree ι} :
      l.node.kind = .continueLoop keyword stated → IsInnermostLoop around loop →
      (∀ word ∈ stated, Ascii.lower word.text = Located.loopWord loop.kind) →
      ContinueReports around l []

/--
Of the diagnostics `items` of the file `fileId`, those about `continue` are what is to be reported
of each such statement of the tree `t`, one after the other in pre-order.
-/
def ReportsContinues (around : Located Nat → List NumberedTree) (t : NumberedTree) (fileId : Nat)
    (items : List Diagnostic) : Prop :=
  ∃ report : Located Nat → List Finding,
    (∀ l ∈ t.located, l.node.kind.isContinue = true → ContinueReports (around l) l (report l)) ∧
    items.filter (fun d => d.code = 1105 ∨ d.code = 1106) =
      ((t.located.filter fun l => l.node.kind.isContinue).flatMap report).map
        fun finding => finding.diagnostic fileId

namespace Located

variable {l : Located ι}

/-- The word for a kind of loop is written in small letters. -/
lemma lower_loopWord (kind : NodeKind) : Ascii.lower (loopWord kind) = loopWord kind := by
  unfold loopWord
  split
  · decide
  · decide

/-- The loop that is found first among the ancestors is the innermost one. -/
lemma isInnermostLoop_of_findAncestor? {loop : Tree ι}
    (h : l.findAncestor? NodeKind.isLoop = some loop) : IsInnermostLoop l.ancestors loop := by
  obtain ⟨hloop, inner, outer, hsplit, hinner⟩ := List.find?_eq_some_iff_append.1 h
  refine ⟨inner, outer, hsplit, hloop, ?_⟩
  intro t ht
  simpa using hinner t ht

/-- The rule reports what is to be reported with respect to all ancestors. -/
lemma continueReports_continueFindings {keyword : Token} {stated : Option Token} {range : Range}
    (hkind : l.node.kind = .continueLoop keyword stated) (hrange : l.node.range = some range) :
    ContinueReports l.ancestors l (l.continueFindings stated) := by
  unfold continueFindings
  cases hfind : l.findAncestor? NodeKind.isLoop with
  | none =>
    dsimp only
    rw [hrange]
    apply ContinueReports.outside hkind hrange
    intro t ht
    simpa using List.find?_eq_none.1 hfind t ht
  | some loop =>
    have hloop := isInnermostLoop_of_findAncestor? hfind
    cases stated with
    | none => exact .fitting hkind hloop nofun
    | some word =>
      by_cases hword : Ascii.lower word.text = loopWord loop.kind
      · have hsame : Ascii.sameWord word.text (loopWord loop.kind) = true := by
          rw [Ascii.sameWord_iff, lower_loopWord, hword]
        dsimp only
        rw [if_pos hsame]
        apply ContinueReports.fitting hkind hloop
        intro w hw
        cases hw
        exact hword
      · have hother : ¬ Ascii.sameWord word.text (loopWord loop.kind) = true := by
          rw [Ascii.sameWord_iff, lower_loopWord]
          exact hword
        dsimp only
        rw [if_neg hother]
        exact .other hkind hloop hword

end Located

/-- Where no loop is around a `continue`, an illegal one has to be reported. -/
lemma ReportsContinues.exists_illegal {around : Located Nat → List NumberedTree} {t : NumberedTree}
    {fileId : Nat} {items : List Diagnostic} (h : ReportsContinues around t fileId items)
    {l : Located Nat} (hl : l ∈ t.located) (hkind : l.node.kind.isContinue = true)
    (haround : ∀ u ∈ around l, u.kind.isLoop = false) : ∃ d ∈ items, d.code = 1106 := by
  obtain ⟨report, hreport, hitems⟩ := h
  have hmem : l ∈ t.located.filter fun l => l.node.kind.isContinue := List.mem_filter.2 ⟨hl, hkind⟩
  have hno {loop : NumberedTree} : ¬ IsInnermostLoop (around l) loop := by
    rintro ⟨inner, outer, hsplit, hloop, -⟩
    have hloop' := haround loop (hsplit ▸ List.mem_append_right _ (.head _))
    rw [hloop] at hloop'
    cases hloop'
  have hl := hreport l hl hkind
  generalize hfindings : report l = findings at hl
  cases hl with
  | @outside keyword stated range _ _ _ =>
    have hd : Finding.diagnostic ⟨.illegalContinue, some range⟩ fileId ∈ items.filter
        fun d => d.code = 1105 ∨ d.code = 1106 := by
      rw [hitems]
      exact List.mem_map_of_mem (List.mem_flatMap.2 ⟨l, hmem, hfindings ▸ .head _⟩)
    exact ⟨_, (List.mem_filter.1 hd).1, rfl⟩
  | other _ hloop _ => exact absurd hloop hno
  | fitting _ hloop _ => exact absurd hloop hno

namespace ParsedFile

variable {source : String} {f : ParsedFile}

/--
Whatever tables and diagnostics a file had before, validation reports of each `continue` in turn
that it is illegal, at its range, if no ancestor is a loop; that the word for the innermost loop is
expected, at the word that is stated, if that is another one; and nothing otherwise. Functions
between the statement and the loop make no difference.
-/
theorem reportsContinues_validate (h : ofSource source = .ok f) (scopes : Scopes) (typedef : Bool)
    (sink : Sink) :
    ReportsContinues Located.ancestors f.tree sink.fileId
      (Analysis.validate ⟨f.tree, scopes⟩ typedef sink).2.items := by
  have hplaced : f.tree.AllPlaced fun _ => True := allPlaced (fun _ _ _ _ => trivial) h
    fun _ _ => trivial
  refine ⟨Located.findings, ?_, ?_⟩
  · intro l hl hkind
    cases hk : l.node.kind with
    | continueLoop keyword stated =>
      have hnode := hplaced l.node ((Tree.preorder_sublist hl).subset l.node.self_mem_preorder)
      obtain ⟨range, hrange, -⟩ := hnode.exists_range (by simp [hk])
      have hfindings : l.findings = l.continueFindings stated := by
        rw [Located.findings, hk]
      rw [hfindings]
      exact Located.continueReports_continueFindings hk hrange
    | _ =>
      rw [hk] at hkind
      cases hkind
  · have hcodes : ∀ kind : NodeKind, ∀ code ∈ kind.reportedCodes,
        decide (code = 1105 ∨ code = 1106) = kind.isContinue := by
      intro kind
      cases kind <;> simp [NodeKind.reportedCodes, NodeKind.isContinue]
    rw [← f.tree.filter_findings hcodes (by decide) typedef]
    exact Analysis.filter_items_validate _ typedef sink fun code => code = 1105 ∨ code = 1106

/-- A `continue` in a function within a loop goes on with that loop. -/
theorem reportsContinues_validate_of_function :
    ∃ f, ofSource "while a\nb = sub()\ncontinue for\nend sub\nend while" = .ok f ∧
      ∀ scopes typedef sink,
        ReportsContinues Located.ancestors f.tree sink.fileId
          (Analysis.validate ⟨f.tree, scopes⟩ typedef sink).2.items ∧
        (Analysis.validate ⟨f.tree, scopes⟩ typedef sink).2.items.filter
          (fun d => d.code = 1105 ∨ d.code = 1106) =
            [Finding.diagnostic ⟨.expectedToken "while", some ⟨⟨2, 9⟩, ⟨2, 12⟩⟩⟩ sink.fileId] := by
  have hfindings : (ofSource "while a\nb = sub()\ncontinue for\nend sub\nend while").toOption.any
      fun f => ∀ typedef, (f.tree.findings typedef).filter
        (fun x => x.violation.code = 1105 ∨ x.violation.code = 1106) =
          [⟨.expectedToken "while", some ⟨⟨2, 9⟩, ⟨2, 12⟩⟩⟩] := by
    decide +kernel
  obtain ⟨f, hf, hfindings⟩ := exists_of_any hfindings
  refine ⟨f, hf, fun scopes typedef sink =>
    ⟨reportsContinues_validate hf scopes typedef sink, ?_⟩⟩
  have hitems := Analysis.filter_items_validate ⟨f.tree, scopes⟩ typedef sink
    fun code => code = 1105 ∨ code = 1106
  exact hitems.trans (congrArg _ (of_decide_eq_true hfindings typedef))

/--
It does not hold that the loop of a `continue` is sought within its function only: nothing is
reported of one in a function within a loop.
-/
theorem not_reportsContinues_withinFunction :
    ∃ f, ofSource
        "sub a()\nwhile true\nb = sub()\ncontinue while\nend sub\nend while\nend sub" = .ok f ∧
      ∀ scopes sink, (Analysis.validate ⟨f.tree, scopes⟩ false sink).2.items = [] ∧
        ¬ ReportsContinues Located.withinFunction f.tree sink.fileId
          (Analysis.validate ⟨f.tree, scopes⟩ false sink).2.items := by
  have hsource : (ofSource
      "sub a()\nwhile true\nb = sub()\ncontinue while\nend sub\nend while\nend sub").toOption.any
        fun f => (f.tree.findings false).isEmpty && f.tree.located.any fun l =>
          l.node.kind.isContinue && l.withinFunction.all fun t => !t.kind.isLoop := by
    decide +kernel
  obtain ⟨f, hf, hsource⟩ := exists_of_any hsource
  obtain ⟨hempty, hcontinue⟩ := Bool.and_eq_true_iff.1 hsource
  obtain ⟨l, hl, hcontinue⟩ := List.any_eq_true.1 hcontinue
  obtain ⟨hkind, hwithin⟩ := Bool.and_eq_true_iff.1 hcontinue
  refine ⟨f, hf, fun scopes sink => ?_⟩
  have hitems : (Analysis.validate ⟨f.tree, scopes⟩ false sink).2.items = [] := by
    rw [Analysis.items_validate]
    exact congrArg _ (List.isEmpty_iff.1 hempty)
  refine ⟨hitems, fun hreports => ?_⟩
  obtain ⟨d, hd, -⟩ := hreports.exists_illegal hl hkind (by simpa using hwithin)
  rw [hitems] at hd
  cases hd

end ParsedFile

end BrighterCheck
