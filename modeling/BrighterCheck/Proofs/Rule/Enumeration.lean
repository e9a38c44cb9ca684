import BrighterCheck.Proofs.Rule.Origin
import Mathlib.Data.Finset.Card

/-!
# What is reported of the members of an enum

Of every member of an enum at most two things are reported: that an earlier member has its name, and
something about its value (`reportsEnums_validate`). Nothing is reported of the values exactly if
they fit together: those that are there are integers, or all are there and of one other type. The
type that is asked for is that of the first value, wherever it stands, so that it is the type that
the values have in common, if they have one (`enumValueType_eq`).
-/

namespace BrighterCheck

variable {ι : Type}

/-- Declarations of an enum. -/
def NodeKind.isEnum : NodeKind → Bool
  | .enumDeclaration .. => true
  | _ => false

/-- A member of an enum: its node, its name, and its value if it has one. -/
structure EnumMember (ι : Type) where
  node : Tree ι
  name : Token
  value : Option (Tree ι)

namespace EnumMember

/-- The name of a member in small letters. -/
def loweredName (m : EnumMember ι) : String :=
  Ascii.lower m.name.text

/-- A node as a member of an enum, if it is of that kind: its value is its first child. -/
def ofNode? (t : Tree ι) : Option (EnumMember ι) :=
  match t.kind with
  | .enumMember name => some ⟨t, name, t.children.head?⟩
  | _ => none

end EnumMember

namespace Tree

/-- The members of an enum, without the comments among them. -/
def enumMembers (t : Tree ι) : List (EnumMember ι) :=
  t.children.filterMap EnumMember.ofNode?

/-- A literal of a type, which may stand behind one operator. -/
inductive IsLiteralOf (type : String) (t : Tree ι) : Prop where
  | bare {token : Token} : t.kind = .literal token → token.kind.literalTypeName = type →
      IsLiteralOf type t
  | behind {operator token : Token} {operand : Tree ι} : t.kind = .unary operator →
      t.children.head? = some operand → operand.kind = .literal token →
      token.kind.literalTypeName = type → IsLiteralOf type t

end Tree

/-- The values that are there are integers, or all values are there and of one other type. -/
def EnumValuesFit (members : List (EnumMember ι)) : Prop :=
  (∀ m ∈ members, ∀ value ∈ m.value, value.IsLiteralOf "integer") ∨
    ∃ type ≠ "integer", ∀ m ∈ members, ∃ value ∈ m.value, value.IsLiteralOf type

/--
What is to be reported of the names and of the values of the members of an enum, by their positions.
-/
structure EnumReports (members : List (EnumMember ι)) (name? value? : Nat → Option Finding) :
    Prop where
  /-- A member is reported at its name exactly if an earlier one has this name. -/
  name?_eq : ∀ before m after, members = before ++ m :: after →
    name? before.length =
      if m.loweredName ∈ before.map EnumMember.loweredName then
        some ⟨.duplicateIdentifier m.name.text, some m.name.range⟩
      else
        none
  /-- So many members are reported at their names as there are more members than names. -/
  length_names : ((List.range members.length).filterMap name?).length +
    (members.map EnumMember.loweredName).toFinset.card = members.length
  /-- A value that is missing or does not fit is reported at its literal, or with its member. -/
  of_value? : ∀ before m after, members = before ++ m :: after → ∀ x ∈ value? before.length,
    (x.violation.code = 1103 ∨ x.violation.code = 1104) ∧
      (x.range = m.node.range ∨
        ∃ token literal, m.value.bind Tree.literal? = some (token, literal) ∧
          x.range = literal.range)
  value?_eq_none_iff : (∀ i < members.length, value? i = none) ↔ EnumValuesFit members

/--
Of the diagnostics `items` of the file `fileId`, those about enums are what is to be reported of the
members of each enum of the tree `t`, one after the other in pre-order: of each member first what
concerns its name.
-/
def ReportsEnums (t : NumberedTree) (fileId : Nat) (items : List Diagnostic) : Prop :=
  ∃ name? value? : Located Nat → Nat → Option Finding,
    (∀ l ∈ t.located, l.node.kind.isEnum = true →
      EnumReports l.node.enumMembers (name? l) (value? l)) ∧
    items.filter (fun d => d.code = 1102 ∨ d.code = 1103 ∨ d.code = 1104) =
      ((t.located.filter fun l => l.node.kind.isEnum).flatMap fun l =>
        (List.range l.node.enumMembers.length).flatMap fun i =>
          (name? l i).toList ++ (value? l i).toList).map
            fun finding => finding.diagnostic fileId

/-! ### Members -/

/-- What the rule takes for a member is a node of that kind. -/
lemma Tree.enumMember?_eq_some_iff {t : Tree ι} {name : Token} {value : Option (Tree ι)} :
    t.enumMember? = some (name, value) ↔ t.kind = .enumMember name ∧ t.children.head? = value := by
  obtain ⟨id, kind, range, children⟩ := t
  cases kind <;> simp [enumMember?]

lemma EnumMember.ofNode?_eq (t : Tree ι) :
    ofNode? t = t.enumMember?.map fun (name, value) => ⟨t, name, value⟩ := by
  cases hm : t.enumMember? with
  | some found =>
    obtain ⟨hkind, hvalue⟩ := Tree.enumMember?_eq_some_iff.1 hm
    rw [ofNode?, hkind, hvalue]
    rfl
  | none =>
    rw [ofNode?]
    split
    next hkind => cases hm.symm.trans (Tree.enumMember?_eq_some_iff.2 ⟨hkind, rfl⟩)
    next => rfl

/-! ### The type of the values -/

namespace Tree

variable {t member : Tree ι} {ts : List (Tree ι)} {type : String}

/-- A literal is the node itself or what stands behind its operator. -/
lemma literal?_eq_some_iff {token : Token} {literal : Tree ι} :
    t.literal? = some (token, literal) ↔
      t.kind = .literal token ∧ t = literal ∨
        ∃ operator, t.kind = .unary operator ∧ t.children.head? = some literal ∧
          literal.kind = .literal token := by
  obtain ⟨id, kind, range, children⟩ := t
  cases kind with
  | literal k => simp [literal?]
  | unary operator =>
    cases children with
    | nil => simp [literal?]
    | cons operand rest =>
      dsimp only [literal?]
      split
      · rename_i k hk
        simp only [List.head?_cons, Option.some.injEq, Prod.mk.injEq, reduceCtorEq, false_and,
          false_or, NodeKind.unary.injEq, exists_eq_left']
        constructor
        · intro h
          exact ⟨h.2, h.1 ▸ h.2 ▸ hk⟩
        · intro h
          exact ⟨NodeKind.literal.inj (hk.symm.trans (h.1 ▸ h.2)), h.1⟩
      · rename_i hk
        simp only [List.head?_cons, Option.some.injEq, reduceCtorEq, false_and, false_or,
          NodeKind.unary.injEq, exists_eq_left', false_iff, not_and]
        intro h
        exact h ▸ hk token
  | _ => simp [literal?]

lemma literalTypeName?_eq_some_iff : t.literalTypeName? = some type ↔ t.IsLiteralOf type := by
  constructor
  · intro h
    obtain ⟨⟨token, literal⟩, hliteral, htype⟩ := Option.map_eq_some_iff.1 h
    obtain ⟨hkind, -⟩ | ⟨operator, hkind, hoperand, htoken⟩ := literal?_eq_some_iff.1 hliteral
    · exact .bare hkind htype
    · exact .behind hkind hoperand htoken htype
  · intro h
    cases h with
    | bare hkind htype =>
      exact Option.map_eq_some_iff.2 ⟨_, literal?_eq_some_iff.2 (.inl ⟨hkind, rfl⟩), htype⟩
    | behind hkind hoperand htoken htype =>
      have hliteral := literal?_eq_some_iff.2 (.inr ⟨_, hkind, hoperand, htoken⟩)
      exact Option.map_eq_some_iff.2 ⟨_, hliteral, htype⟩

/-- A value fits the type of an enum, or it is left out of an enum of integers. -/
lemma enumValueFindings_eq_nil_iff {o : Option (Tree ι)} :
    enumValueFindings type member o = [] ↔
      (o = none ∧ type = "integer") ∨ ∃ value ∈ o, value.IsLiteralOf type := by
  cases o with
  | none => simp [enumValueFindings]
  | some value => simp [enumValueFindings, literalTypeName?_eq_some_iff]

/-- At most one thing is reported of the value of a member. -/
lemma toList_head?_enumValueFindings {o : Option (Tree ι)} :
    (enumValueFindings type member o).head?.toList = enumValueFindings type member o := by
  unfold enumValueFindings
  split
  · split
    · rfl
    · rfl
  · split
    · rfl
    · rfl

/-- The values of some statements are those of the members among them. -/
lemma filterMap_value (ts : List (Tree ι)) :
    ts.filterMap (fun t => t.enumMember?.bind Prod.snd) =
      (ts.filterMap EnumMember.ofNode?).filterMap EnumMember.value := by
  rw [List.filterMap_filterMap]
  congr 1
  funext t
  rw [EnumMember.ofNode?_eq, Option.bind_map]
  rfl

/-- The type of an enum is one that all values have, if there are values, and else integer. -/
lemma enumValueType_eq (h : ∀ m ∈ ts.filterMap EnumMember.ofNode?, ∀ value ∈ m.value,
    value.IsLiteralOf type) (hnone : (∀ m ∈ ts.filterMap EnumMember.ofNode?, m.value = none) →
      type = "integer") : enumValueType ts = type := by
  rw [enumValueType, filterMap_value]
  cases hvalues : (ts.filterMap EnumMember.ofNode?).filterMap EnumMember.value with
  | nil =>
    exact (hnone (List.filterMap_eq_nil_iff.1 hvalues)).symm
  | cons value values =>
    have hmem : value ∈ (ts.filterMap EnumMember.ofNode?).filterMap EnumMember.value := by
      rw [hvalues]
      exact .head _
    obtain ⟨m, hm, hvalue⟩ := List.mem_filterMap.1 hmem
    have htype := literalTypeName?_eq_some_iff.2 (h m hm value hvalue)
    simp [htype]

/-- Nothing is reported of the values of an enum exactly if they fit together. -/
lemma enumValuesFit_iff :
    EnumValuesFit (ts.filterMap EnumMember.ofNode?) ↔
      ∀ m ∈ ts.filterMap EnumMember.ofNode?,
        enumValueFindings (enumValueType ts) m.node m.value = [] := by
  simp only [enumValueFindings_eq_nil_iff]
  constructor
  · intro h m hm
    obtain hinteger | ⟨type, -, hother⟩ := h
    · have htype : enumValueType ts = "integer" := enumValueType_eq hinteger fun _ => rfl
      rw [htype]
      cases hvalue : m.value with
      | none => exact .inl ⟨rfl, rfl⟩
      | some value => exact .inr ⟨value, rfl, hinteger m hm value hvalue⟩
    · have htype : enumValueType ts = type := by
        apply enumValueType_eq
        · intro m' hm' value hvalue
          obtain ⟨value', hvalue', hliteral⟩ := hother m' hm'
          cases hvalue.symm.trans hvalue'
          exact hliteral
        · intro hnone
          obtain ⟨value, hvalue, -⟩ := hother m hm
          cases hvalue.symm.trans (hnone m hm)
      rw [htype]
      exact .inr (hother m hm)
  · intro h
    by_cases htype : enumValueType ts = "integer"
    · apply Or.inl
      intro m hm value hvalue
      obtain ⟨hnone, -⟩ | ⟨value', hvalue', hliteral⟩ := h m hm
      · cases hvalue.symm.trans hnone
      · cases hvalue.symm.trans hvalue'
        exact htype ▸ hliteral
    · exact .inr ⟨_, htype, fun m hm => (h m hm).resolve_left fun hleft => htype hleft.2⟩

end Tree

/-! ### The members by their positions -/

namespace EnumMember

variable {members before after : List (EnumMember ι)} {m : EnumMember ι} {type : String} {i : Nat}

/-- What is reported at the name of the member at a position. -/
def nameAt (members : List (EnumMember ι)) (i : Nat) : Option Finding :=
  members[i]?.bind fun m =>
    if m.loweredName ∈ (members.take i).map loweredName then
      some ⟨.duplicateIdentifier m.name.text, some m.name.range⟩
    else
      none

/-- What is reported of the value of the member at a position. -/
def valueAt (type : String) (members : List (EnumMember ι)) (i : Nat) : Option Finding :=
  members[i]?.bind fun m => (Tree.enumValueFindings type m.node m.value).head?

lemma nameAt_length :
    nameAt (before ++ m :: after) before.length =
      if m.loweredName ∈ before.map loweredName then
        some ⟨.duplicateIdentifier m.name.text, some m.name.range⟩
      else
        none := by
  simp [nameAt]

lemma valueAt_length :
    valueAt type (before ++ m :: after) before.length =
      (Tree.enumValueFindings type m.node m.value).head? := by
  simp [valueAt]

/-- Members that follow make no difference to what is reported at a name. -/
lemma nameAt_append (hi : i < before.length) : nameAt (before ++ after) i = nameAt before i := by
  rw [nameAt, nameAt, List.getElem?_append_left hi, List.take_append_of_le_length hi.le]

/-- Every member that is not reported at its name adds a name. -/
lemma length_filterMap_nameAt (members : List (EnumMember ι)) :
    ((List.range members.length).filterMap (nameAt members)).length +
      (members.map loweredName).toFinset.card = members.length := by
  induction members using List.reverseRecOn with
  | nil => rfl
  | append_singleton members m ih =>
    have hbefore : (List.range members.length).filterMap (nameAt (members ++ [m])) =
        (List.range members.length).filterMap (nameAt members) := by
      apply List.filterMap_congr
      intro i hi
      exact nameAt_append (List.mem_range.1 hi)
    have hnames : ((members ++ [m]).map loweredName).toFinset =
        insert m.loweredName (members.map loweredName).toFinset := by
      simp [List.toFinset_append]
    have hlast : ([members.length].filterMap (nameAt (members ++ [m]))).length =
        if m.loweredName ∈ members.map loweredName then 1 else 0 := by
      rw [List.filterMap_cons, nameAt_length]
      split_ifs
      · rfl
      · rfl
    rw [List.length_append, List.length_singleton, List.range_succ, List.filterMap_append, hbefore,
      List.length_append, hlast, hnames]
    by_cases hm : m.loweredName ∈ members.map loweredName
    · rw [if_pos hm, Finset.insert_eq_of_mem (List.mem_toFinset.2 hm)]
      omega
    · rw [if_neg hm, Finset.card_insert_of_notMem fun h => hm (List.mem_toFinset.1 h)]
      omega

/-- Nothing is reported of any value exactly if each of them is well. -/
lemma valueAt_eq_none_iff :
    (∀ i < members.length, valueAt type members i = none) ↔
      ∀ m ∈ members, Tree.enumValueFindings type m.node m.value = [] := by
  simp only [List.forall_mem_iff_forall_getElem]
  refine forall₂_congr fun i hi => ?_
  simp [valueAt, hi]

end EnumMember

namespace Tree

variable {ts : List (Tree ι)} {type : String}

/-- A value is reported at its literal, or with its member. -/
lemma range_enumValueFindings {member : Tree ι} {o : Option (Tree ι)} {x : Finding}
    (hx : x ∈ enumValueFindings type member o) :
    x.range = member.range ∨
      ∃ token literal, o.bind literal? = some (token, literal) ∧ x.range = literal.range := by
  cases o with
  | none =>
    dsimp only [enumValueFindings] at hx
    split at hx
    · cases hx
    · cases List.mem_singleton.1 hx
      exact .inl rfl
  | some value =>
    dsimp only [enumValueFindings] at hx
    split at hx
    · cases hx
    · cases List.mem_singleton.1 hx
      cases hliteral : value.literal? with
      | none => exact .inl rfl
      | some found =>
        obtain ⟨token, literal⟩ := found
        cases hrange : literal.range with
        | none => exact .inl (by simp [hrange])
        | some range => exact .inr ⟨token, literal, hliteral, by simp [hrange]⟩

/-- The findings of the members that follow some others are told by their positions. -/
lemma enumFindingsFrom_eq {seen : List String} (before : List (EnumMember ι))
    (hseen : ∀ s, s ∈ seen ↔ s ∈ before.map EnumMember.loweredName) :
    enumFindingsFrom type seen ts =
      (List.range' before.length (ts.filterMap EnumMember.ofNode?).length).flatMap fun i =>
        (EnumMember.nameAt (before ++ ts.filterMap EnumMember.ofNode?) i).toList ++
          (EnumMember.valueAt type (before ++ ts.filterMap EnumMember.ofNode?) i).toList := by
  induction ts generalizing seen before with
  | nil => rfl
  | cons t ts ih =>
    cases hmember : t.enumMember? with
    | none =>
      have hnode : EnumMember.ofNode? t = none := by rw [EnumMember.ofNode?_eq, hmember]; rfl
      rw [enumFindingsFrom, hmember, List.filterMap_cons_none hnode]
      exact ih before hseen
    | some found =>
      obtain ⟨name, value⟩ := found
      have hnode : EnumMember.ofNode? t = some ⟨t, name, value⟩ := by
        rw [EnumMember.ofNode?_eq, hmember]; rfl
      have hseen' : ∀ s, s ∈ Ascii.lower name.text :: seen ↔
          s ∈ (before ++ [⟨t, name, value⟩] : List (EnumMember ι)).map EnumMember.loweredName := by
        intro s
        simp [hseen, EnumMember.loweredName, or_comm]
      have hnext := ih (before ++ [⟨t, name, value⟩]) hseen'
      simp only [List.length_append, List.length_singleton, List.append_assoc,
        List.singleton_append] at hnext
      have hduplicate : duplicateFindings seen name =
          (if Ascii.lower name.text ∈ before.map EnumMember.loweredName then
            some (⟨.duplicateIdentifier name.text, some name.range⟩ : Finding)
          else none).toList := by
        simp only [duplicateFindings, hseen]
        split
        · rfl
        · rfl
      rw [enumFindingsFrom, hmember]
      dsimp only
      rw [hnext, List.filterMap_cons_some hnode, List.length_cons, List.range'_succ,
        List.flatMap_cons, EnumMember.nameAt_length, EnumMember.valueAt_length,
        toList_head?_enumValueFindings, hduplicate]
      rfl

end Tree

/-- The findings of the members of an enum are what is to be reported of them. -/
lemma enumReports (ts : List (Tree ι)) :
    EnumReports (ts.filterMap EnumMember.ofNode?)
      (EnumMember.nameAt (ts.filterMap EnumMember.ofNode?))
      (EnumMember.valueAt (Tree.enumValueType ts) (ts.filterMap EnumMember.ofNode?)) where
  name?_eq before m after hsplit := by
    rw [hsplit]
    exact EnumMember.nameAt_length
  length_names := EnumMember.length_filterMap_nameAt _
  of_value? before m after hsplit x hx := by
    rw [hsplit, EnumMember.valueAt_length] at hx
    have hmem := List.mem_of_mem_head? hx
    exact ⟨Tree.code_enumValueFindings hmem, Tree.range_enumValueFindings hmem⟩
  value?_eq_none_iff := by
    rw [EnumMember.valueAt_eq_none_iff]
    exact Tree.enumValuesFit_iff.symm

/-- The codes of what is reported of the members of an enum. -/
def isEnumCode (code : Nat) : Bool :=
  code = 1102 ∨ code = 1103 ∨ code = 1104

/-- What is reported of a node as an enum is what is reported of its members. -/
lemma Located.filter_isEnumCode (l : Located ι) :
    (l.findings.filter fun x => isEnumCode x.violation.code) =
      if l.node.kind.isEnum then Tree.enumFindings l.node.children else [] := by
  cases hkind : l.node.kind with
  | enumDeclaration keyword name =>
    have hplacement : ∀ x ∈ l.placementFindings, ¬ isEnumCode x.violation.code = true := by
      intro x hx
      rw [code_placementFindings hx]
      decide
    have henum : ∀ x ∈ Tree.enumFindings l.node.children, isEnumCode x.violation.code = true := by
      intro x hx
      simpa [isEnumCode] using Tree.code_enumFindingsFrom hx
    rw [findings, hkind]
    dsimp only
    rw [List.filter_append, List.filter_eq_nil_iff.2 hplacement, List.filter_eq_self.2 henum]
    rfl
  | _ =>
    have hcodes : ∀ code ∈ l.node.kind.reportedCodes, ¬ isEnumCode code = true := by
      rw [hkind]
      simp [NodeKind.reportedCodes, isEnumCode]
    apply List.filter_eq_nil_iff.2
    intro x hx
    exact hcodes _ (code_findings hx)

namespace Analysis

/--
Of the members of each enum, a validation reports the names that occurred before, and values exactly
if they do not fit together, at most once for each member. This holds for any tree, whatever its
enums hold in whatever order.
-/
theorem reportsEnums_validate (t : NumberedTree) (scopes : Scopes) (typedef : Bool) (sink : Sink) :
    ReportsEnums t sink.fileId (validate ⟨t, scopes⟩ typedef sink).2.items := by
  refine ⟨fun l => EnumMember.nameAt l.node.enumMembers,
    fun l => EnumMember.valueAt (Tree.enumValueType l.node.children) l.node.enumMembers, ?_, ?_⟩
  · intro l _ _
    exact enumReports l.node.children
  · have hfindings : (t.findings typedef).filter (fun x => isEnumCode x.violation.code) =
        (t.located.filter fun l => l.node.kind.isEnum).flatMap fun l =>
          (List.range l.node.enumMembers.length).flatMap fun i =>
            (EnumMember.nameAt l.node.enumMembers i).toList ++ (EnumMember.valueAt
              (Tree.enumValueType l.node.children) l.node.enumMembers i).toList := by
      rw [Tree.filter_findings_eq_flatMap (by decide), flatMap_filter]
      apply List.flatMap_congr
      intro l _
      rw [l.filter_isEnumCode, Tree.enumFindings, Tree.enumFindingsFrom_eq [] (by simp),
        List.range_eq_range']
      rfl
    rw [← hfindings]
    exact filter_items_validate ⟨t, scopes⟩ typedef sink isEnumCode

/-- An enum of integers and one of strings: a name occurs twice, and two values do not fit. -/
theorem reportsEnums_validate_of_strings :
    ∃ f, ParsedFile.ofSource ("enum a\nb = 1\nB\nc = \"x\"\nb = -2\nend enum\n" ++
        "enum d\ne = \"y\"\n' g\nf\nend enum") = .ok f ∧
      ∀ scopes typedef sink,
        ReportsEnums f.tree sink.fileId (validate ⟨f.tree, scopes⟩ typedef sink).2.items ∧
        (validate ⟨f.tree, scopes⟩ typedef sink).2.items.filter
          (fun d => d.code = 1102 ∨ d.code = 1103 ∨ d.code = 1104) =
            [Finding.diagnostic ⟨.duplicateIdentifier "B", some ⟨⟨2, 0⟩, ⟨2, 1⟩⟩⟩ sink.fileId,
              Finding.diagnostic ⟨.enumValueType "integer", some ⟨⟨3, 4⟩, ⟨3, 7⟩⟩⟩ sink.fileId,
              Finding.diagnostic ⟨.duplicateIdentifier "b", some ⟨⟨4, 0⟩, ⟨4, 1⟩⟩⟩ sink.fileId,
              Finding.diagnostic ⟨.enumValueRequired "string", some ⟨⟨9, 0⟩, ⟨9, 1⟩⟩⟩
                sink.fileId] := by
  have hfindings : (ParsedFile.ofSource
      ("enum a\nb = 1\nB\nc = \"x\"\nb = -2\nend enum\n" ++
        "enum d\ne = \"y\"\n' g\nf\nend enum")).toOption.any
        fun f => ∀ typedef, (f.tree.findings typedef).filter
          (fun x => isEnumCode x.violation.code) =
            [⟨.duplicateIdentifier "B", some ⟨⟨2, 0⟩, ⟨2, 1⟩⟩⟩,
              ⟨.enumValueType "integer", some ⟨⟨3, 4⟩, ⟨3, 7⟩⟩⟩,
              ⟨.duplicateIdentifier "b", some ⟨⟨4, 0⟩, ⟨4, 1⟩⟩⟩,
              ⟨.enumValueRequired "string", some ⟨⟨9, 0⟩, ⟨9, 1⟩⟩⟩] := by
    decide +kernel
  obtain ⟨f, hf, hfindings⟩ := ParsedFile.exists_of_any hfindings
  refine ⟨f, hf, fun scopes typedef sink =>
    ⟨reportsEnums_validate f.tree scopes typedef sink, ?_⟩⟩
  have hitems := filter_items_validate ⟨f.tree, scopes⟩ typedef sink isEnumCode
  exact hitems.trans (congrArg _ (of_decide_eq_true hfindings typedef))

end Analysis

end BrighterCheck
