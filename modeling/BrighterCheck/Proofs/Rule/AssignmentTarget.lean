import BrighterCheck.Proofs.Rule.Origin
import BrighterCheck.Proofs.Tree.Origin

/-!
# What is reported of an assignment to a part of an object

An assignment to a field or to an indexed element is reported exactly if a question mark stands on
the chain of objects that leads to its target, and then once (`reportsTargets_validate`). It is
reported at the range that the target had as an expression, before it became an assignment: the rule
puts this range together from the parts that are left, and gets the same
(`targetRange_eq_of_reads`).
-/

namespace BrighterCheck

open BrighterCheck.Parser Item Range

variable {ι : Type}

namespace NodeKind

/-- Assignments to a field or to an indexed element. -/
def isPartAssignment : NodeKind → Bool
  | .dottedSet .. | .indexedSet .. => true
  | _ => false

/-- The token that the target of an assignment ends with: a name, or a closing bracket. -/
def targetEnd? : NodeKind → Option Token
  | .dottedSet _ last _ => some last
  | .indexedSet _ _ closeSquare _ => some closeSquare
  | _ => none

end NodeKind

namespace Tree

variable {t u object : Tree ι} {rest : List (Tree ι)}

/--
One step inwards on the chain of a target: from a part to its object, from a call to what is called,
and from parentheses to what is in them. Indexes, arguments and values are behind the first child.
-/
inductive HasObject (t object : Tree ι) : Prop where
  | dottedSet {dot name operator : Token} {rest : List (Tree ι)} :
      t.kind = .dottedSet dot name operator → t.children = object :: rest → HasObject t object
  | indexedSet {question : Option Token} {opening close operator : Token} {rest : List (Tree ι)} :
      t.kind = .indexedSet question opening close operator → t.children = object :: rest →
      HasObject t object
  | dottedGet {dot name : Token} {rest : List (Tree ι)} :
      t.kind = .dottedGet dot name → t.children = object :: rest → HasObject t object
  | indexedGet {question : Option Token} {opening close : Token} {rest : List (Tree ι)} :
      t.kind = .indexedGet question opening close → t.children = object :: rest →
      HasObject t object
  | call {rest : List (Tree ι)} : t.kind = .call → t.children = object :: rest →
      HasObject t object
  | callfunc {operator method : Token} {rest : List (Tree ι)} :
      t.kind = .callfunc operator method → t.children = object :: rest → HasObject t object
  | grouping {rest : List (Tree ι)} : t.kind = .grouping → t.children = object :: rest →
      HasObject t object

/-- The node `u` is on the chain of the target `t`, which has any length. -/
def OnTargetChain (t u : Tree ι) : Prop :=
  Relation.ReflTransGen HasObject t u

/-- A part is taken from an object, or set in it, by `?.`, by `?[` or by `?.[`. -/
inductive UsesQuestionMark (t : Tree ι) : Prop where
  | dottedGet {dot name : Token} : t.kind = .dottedGet dot name →
      dot.kind = .punctuator .questionDot → UsesQuestionMark t
  | dottedSet {dot name operator : Token} : t.kind = .dottedSet dot name operator →
      dot.kind = .punctuator .questionDot → UsesQuestionMark t
  | indexedGet {question : Option Token} {opening close : Token} :
      t.kind = .indexedGet question opening close →
      question ≠ none ∨ opening.kind = .punctuator .questionSquare → UsesQuestionMark t
  | indexedSet {question : Option Token} {opening close operator : Token} :
      t.kind = .indexedSet question opening close operator →
      question ≠ none ∨ opening.kind = .punctuator .questionSquare → UsesQuestionMark t

lemma usesQuestionMark_iff : t.UsesQuestionMark ↔ usesOptionalChaining t.kind = true := by
  constructor
  · intro h
    cases h with
    | dottedGet hk hdot | dottedSet hk hdot => simp [usesOptionalChaining, hk, hdot]
    | indexedGet hk hopening | indexedSet hk hopening =>
      simpa [usesOptionalChaining, hk, Option.isSome_iff_ne_none] using hopening
  · intro h
    cases hk : t.kind with
    | dottedGet dot name => exact .dottedGet hk (by simpa [usesOptionalChaining, hk] using h)
    | dottedSet dot name => exact .dottedSet hk (by simpa [usesOptionalChaining, hk] using h)
    | indexedGet question opening close =>
      exact .indexedGet hk
        (by simpa [usesOptionalChaining, hk, Option.isSome_iff_ne_none] using h)
    | indexedSet question opening close operator =>
      exact .indexedSet hk
        (by simpa [usesOptionalChaining, hk, Option.isSome_iff_ne_none] using h)
    | _ => simp [usesOptionalChaining, hk] at h

/-- A node that has an object has it as its first child. -/
lemma hasObject_iff :
    t.HasObject object ↔ hasTargetObject t.kind = true ∧ t.children.head? = some object := by
  constructor
  · intro h
    cases h with
    | _ => simp_all [hasTargetObject]
  · rintro ⟨hk, hhead⟩
    obtain ⟨rest, hchildren⟩ := List.head?_eq_some_iff.1 hhead
    cases hkind : t.kind with
    | dottedSet => exact .dottedSet hkind hchildren
    | indexedSet => exact .indexedSet hkind hchildren
    | dottedGet => exact .dottedGet hkind hchildren
    | indexedGet => exact .indexedGet hkind hchildren
    | call => exact .call hkind hchildren
    | callfunc => exact .callfunc hkind hchildren
    | grouping => exact .grouping hkind hchildren
    | _ => simp [hasTargetObject, hkind] at hk

/-- The chain of a node is the node, and the chain of its object if it has one. -/
lemma mem_targetChain :
    u ∈ t.targetChain ↔ u = t ∨ ∃ object, t.HasObject object ∧ u ∈ object.targetChain := by
  simp only [hasObject_iff]
  obtain ⟨id, kind, range, children⟩ := t
  cases children with
  | nil => simp [targetChain]
  | cons object rest =>
    cases hkind : hasTargetObject kind with
    | false => simp [targetChain, hkind]
    | true => simp [targetChain, hkind]

/-- The rule goes through the nodes on the chain of a target, whatever its length is. -/
theorem mem_targetChain_iff : u ∈ t.targetChain ↔ t.OnTargetChain u := by
  constructor
  · intro h
    induction t using Tree.induction with
    | node t ih =>
      obtain rfl | ⟨object, hobject, hu⟩ := mem_targetChain.1 h
      · exact .refl
      · have hchild : object ∈ t.children := List.mem_of_mem_head? (hasObject_iff.1 hobject).2
        exact .head hobject (ih object hchild hu)
  · intro h
    induction h using Relation.ReflTransGen.head_induction_on with
    | refl => exact mem_targetChain.2 (.inl rfl)
    | head hobject _ ih => exact mem_targetChain.2 (.inr ⟨_, hobject, ih⟩)

/-- A question mark is found if one stands on the chain. -/
lemma any_targetChain_iff :
    (t.targetChain.any fun u => usesOptionalChaining u.kind) = true ↔
      ∃ u, t.OnTargetChain u ∧ u.UsesQuestionMark := by
  simp [List.any_eq_true, mem_targetChain_iff, usesQuestionMark_iff]

end Tree

/--
The assignment `t` was made of the expression `target`, which was read at some place of `tokens`,
from the start of its object to the end of its name or closing bracket.
-/
structure IsTargetOf (tokens : List Token) (target t : NumberedTree) : Prop where
  read : ∃ (s u v : Reading) (op : Token) (value : NumberedTree), s.tokens <:+ tokens ∧
    Reads s [.node .expression target] u ∧ Reads u [.token op, .node .expression value] v ∧
      assignment? target op value = some t
  range_eq : ∃ object ∈ t.children.head?, ∃ o ∈ object.range, ∃ close ∈ t.kind.targetEnd?,
    target.range = some ⟨o.start, close.range.finish⟩

/-- What is to be reported of an assignment to a part of an object. -/
inductive TargetReports (tokens : List Token) (t : NumberedTree) : List Finding → Prop where
  | optional {u target : NumberedTree} : t.OnTargetChain u → u.UsesQuestionMark →
      IsTargetOf tokens target t → TargetReports tokens t [⟨.optionalChainingTarget, target.range⟩]
  | plain : (∀ u, t.OnTargetChain u → ¬ u.UsesQuestionMark) → TargetReports tokens t []

/--
Of the diagnostics `items` of the file `fileId`, those about targets are what is to be reported of
each assignment to a part of an object in the tree `t`, one after the other in pre-order.
-/
def ReportsTargets (tokens : List Token) (t : NumberedTree) (fileId : Nat)
    (items : List Diagnostic) : Prop :=
  ∃ report : Located Nat → List Finding,
    (∀ l ∈ t.located, l.node.kind.isPartAssignment = true →
      TargetReports tokens l.node (report l)) ∧
    items.filter (fun d => d.code = 1109) =
      ((t.located.filter fun l => l.node.kind.isPartAssignment).flatMap report).map
        fun finding => finding.diagnostic fileId

/-- No production makes an assignment to a part of an object. -/
lemma Production.isPartAssignment_eq_false {c : Category} {kind : NodeKind}
    {range : Option Range} {items : List Item} (h : Production c kind range items) :
    kind.isPartAssignment = false := by
  cases h with
  | @arm form => cases form <;> rfl
  | extended h | single h | named h => cases h <;> rfl
  | _ => rfl

/-- Ranges from that of an object to that of a closing token are bounded by these two. -/
lemma bounding_eq_of_items {p q : Position} {c : Category} {object : NumberedTree} {o : Range}
    {close : Token} (inside : List Item) (rs : List (Option Range))
    (hb : Between p (ranges (.node c object :: (inside ++ [.token close]))) q)
    (ho : object.range = some o) (hrs : ∀ r, some r ∈ rs → r ∈ ranges inside) :
    bounding (object.range :: (rs ++ [some close.range])) =
      some ⟨o.start, close.range.finish⟩ := by
  have hb : Between p (o :: (ranges inside ++ [close.range])) q := by
    simpa [ranges_cons, ho] using hb
  apply hb.bounding_eq
  · simp [ho]
  · simp
  · intro r hr
    simp only [ho, List.mem_cons, List.mem_append, Option.some.injEq, List.not_mem_nil,
      or_false] at hr ⊢
    exact hr.imp_right (Or.imp_left (hrs r))

/-- A member has the range from its object to its name, and the mark between them adds nothing. -/
lemma Production.range_dottedGet {dot name : Token} {range : Option Range} {items : List Item}
    {p q : Position} (h : Production .expression (.dottedGet dot name) range items)
    (hb : Between p (ranges items) q) (hn : ∀ c t, .node c t ∈ items → Placed c p t q) :
    ∃ object o, nodes items = [object] ∧ object.range = some o ∧
      range = some ⟨o.start, name.range.finish⟩ ∧
      bounding [object.range, some dot.range, some name.range] = range := by
  cases h with
  | @dottedGet object =>
    obtain ⟨o, ho⟩ := (hn .expression object (.head _)).exists_range nofun
    have hrange := bounding_eq_of_items [.token dot] [] hb ho nofun
    have hmark := bounding_eq_of_items [.token dot] [some dot.range] hb ho (by simp)
    exact ⟨object, o, rfl, ho, hrange, hmark.trans hrange.symm⟩

/-- An item has the range from its object to its closing bracket, whatever the indexes are. -/
lemma Production.range_indexedGet {question : Option Token} {opening close : Token}
    {range : Option Range} {items : List Item} {p q : Position}
    (h : Production .expression (.indexedGet question opening close) range items)
    (hb : Between p (ranges items) q) (hn : ∀ c t, .node c t ∈ items → Placed c p t q) :
    ∃ object o indexes, nodes items = object :: indexes ∧ object.range = some o ∧
      range = some ⟨o.start, close.range.finish⟩ ∧
      bounding ([object.range, some opening.range] ++ indexes.map Tree.range ++
        [some close.range]) = range := by
  cases h with
  | @indexedGet object _ _ inside =>
    obtain ⟨o, ho⟩ := (hn .expression object (.head _)).exists_range nofun
    have hb : Between p (ranges (.node .expression object ::
        ((tokens question.toList ++ .token opening :: inside) ++ [.token close]))) q := by
      simpa using hb
    have hrange := bounding_eq_of_items _ [] hb ho nofun
    have hindexes : ∀ r, some r ∈ some opening.range :: (nodes inside).map Tree.range →
        r ∈ ranges (tokens question.toList ++ .token opening :: inside) := by
      intro r hr
      rw [ranges_append, ranges_token]
      apply List.mem_append_right
      cases List.mem_cons.1 hr with
      | inl hr => exact Option.some.inj hr ▸ .head _
      | inr hr =>
        obtain ⟨index, hindex, hr⟩ := List.mem_map.1 hr
        exact .tail _ (mem_ranges_of_nodes hindex hr)
    have hbracket := bounding_eq_of_items _ _ hb ho hindexes
    exact ⟨object, o, nodes inside, by simp, ho, hrange, hbracket.trans hrange.symm⟩

/--
The range that an expression has as a target is the one that is put together once it has become an
assignment to a part of an object.
-/
lemma targetRange_eq_of_reads {s u : Reading} {target value t : NumberedTree} {op : Token}
    {p q : Position} (h : Reads s [.node .expression target] u)
    (ha : assignment? target op value = some t) (hk : t.kind.isPartAssignment = true)
    (hb : Between p (s.tokens.map Token.range) q) :
    t.targetRange = target.range ∧ ∃ object ∈ t.children.head?, ∃ o ∈ object.range,
      ∃ close ∈ t.kind.targetEnd?, target.range = some ⟨o.start, close.range.finish⟩ := by
  obtain ⟨w, inside, hinside, hp, hchildren⟩ := h.expression_inv
  obtain ⟨m, hbetween, -, hplaced⟩ := hinside.placed hb
  unfold assignment? at ha
  split at ha
  case h_1 =>
    cases ha
    cases hk
  case h_2 dot name hkind =>
    cases ha
    rw [hkind] at hp
    obtain ⟨object, o, hnodes, ho, hrange, htarget⟩ := hp.range_dottedGet hbetween hplaced
    refine ⟨?_, object, by simp [hchildren, hnodes], o, ho, name, rfl, hrange⟩
    simp only [Tree.targetRange, hchildren, hnodes, List.cons_append]
    exact htarget
  case h_3 question opening close hkind =>
    cases ha
    rw [hkind] at hp
    obtain ⟨object, o, indexes, hnodes, ho, hrange, htarget⟩ :=
      hp.range_indexedGet hbetween hplaced
    refine ⟨?_, object, by simp [hchildren, hnodes], o, ho, close, rfl, hrange⟩
    simp only [Tree.targetRange, hchildren, hnodes, List.cons_append, List.dropLast_concat]
    exact htarget
  case h_4 => cases ha

/-- Every assignment to a part of an object has a target, and is reported at its range. -/
lemma Origin.isTargetOf {tokens : List Token} {t : NumberedTree} {p q : Position}
    (h : Origin tokens t) (hk : t.kind.isPartAssignment = true)
    (hb : Between p (tokens.map Token.range) q) :
    ∃ target, IsTargetOf tokens target t ∧ t.targetRange = target.range := by
  cases h with
  | made _ _ hp _ | closed _ _ hp _ =>
    rw [hp.isPartAssignment_eq_false] at hk
    cases hk
  | @assigned s u v target value op hs hr _ hv ha =>
    obtain ⟨m, hb⟩ := between_of_suffix hs hb
    obtain ⟨hrule, hrange⟩ := targetRange_eq_of_reads hr ha hk hb
    exact ⟨target, ⟨⟨s, u, v, op, value, hs, hr, hv, ha⟩, hrange⟩, hrule⟩

/-- The rule reports what is to be reported. -/
lemma Origin.targetReports {tokens : List Token} {t : NumberedTree} {p q : Position}
    (h : Origin tokens t) (hk : t.kind.isPartAssignment = true)
    (hb : Between p (tokens.map Token.range) q) : TargetReports tokens t t.assignmentFindings := by
  obtain ⟨target, htarget, hrange⟩ := h.isTargetOf hk hb
  unfold Tree.assignmentFindings
  split_ifs with hany
  · obtain ⟨u, hu, hquestion⟩ := Tree.any_targetChain_iff.1 hany
    rw [hrange]
    exact .optional hu hquestion htarget
  · apply TargetReports.plain
    intro u hu hquestion
    exact hany (Tree.any_targetChain_iff.2 ⟨u, hu, hquestion⟩)

namespace ParsedFile

variable {source : String} {f : ParsedFile}

/--
Whatever tables and diagnostics a file had before, validation reports of each assignment to a part
of an object, in turn, that its target uses optional chaining, if a question mark stands anywhere on
the chain of objects that leads to it, and nothing otherwise. It is reported at the range that the
target had when it was read.
-/
theorem reportsTargets_validate (h : ofSource source = .ok f) (scopes : Scopes) (typedef : Bool)
    (sink : Sink) :
    ReportsTargets f.stream.tokens f.tree sink.fileId
      (Analysis.validate ⟨f.tree, scopes⟩ typedef sink).2.items := by
  obtain ⟨q, hb⟩ := TokenStream.between_of_ofSource (made_of_ofSource h).1
  refine ⟨Located.findings, ?_, ?_⟩
  · intro l hl hk
    have horigin := origin h l.node ((Tree.preorder_sublist hl).subset l.node.self_mem_preorder)
    have hfindings : l.findings = l.node.assignmentFindings := by
      cases hkind : l.node.kind with
      | dottedSet | indexedSet => rw [Located.findings, hkind]
      | _ =>
        rw [hkind] at hk
        cases hk
    rw [hfindings]
    exact horigin.targetReports hk hb
  · have hcodes : ∀ kind : NodeKind, ∀ code ∈ kind.reportedCodes,
        decide (code = 1109) = kind.isPartAssignment := by
      intro kind
      cases kind <;> simp [NodeKind.reportedCodes, NodeKind.isPartAssignment]
    rw [← f.tree.filter_findings hcodes (by decide) typedef]
    exact Analysis.filter_items_validate _ typedef sink fun code => code = 1109

/-- A question mark in front of a call counts for its target; one among the indexes does not. -/
theorem reportsTargets_validate_of_call :
    ∃ f, ofSource "sub a()\nx?.y(m).z = 1\nb[c?.d] = e?.f\nend sub" = .ok f ∧
      ∀ scopes typedef sink,
        ReportsTargets f.stream.tokens f.tree sink.fileId
          (Analysis.validate ⟨f.tree, scopes⟩ typedef sink).2.items ∧
        (Analysis.validate ⟨f.tree, scopes⟩ typedef sink).2.items.filter (fun d => d.code = 1109) =
          [Finding.diagnostic ⟨.optionalChainingTarget, some ⟨⟨1, 0⟩, ⟨1, 9⟩⟩⟩ sink.fileId] := by
  have hfindings : (ofSource "sub a()\nx?.y(m).z = 1\nb[c?.d] = e?.f\nend sub").toOption.any
      fun f => ∀ typedef, (f.tree.findings typedef).filter (fun x => x.violation.code = 1109) =
        [⟨.optionalChainingTarget, some ⟨⟨1, 0⟩, ⟨1, 9⟩⟩⟩] := by
    decide +kernel
  obtain ⟨f, hf, hfindings⟩ := exists_of_any hfindings
  refine ⟨f, hf, fun scopes typedef sink =>
    ⟨reportsTargets_validate hf scopes typedef sink, ?_⟩⟩
  have hitems := Analysis.filter_items_validate ⟨f.tree, scopes⟩ typedef sink
    fun code => code = 1109
  exact hitems.trans (congrArg _ (of_decide_eq_true hfindings typedef))

end ParsedFile

end BrighterCheck
