import BrighterCheck.Proofs.Parser.Descent.File
import BrighterCheck.Proofs.Rule.Validation

/-!
# Findings that are aligned with tokens

Every finding is reported at the range of a node that has one, at a token of a node, or at a range
that is bounded by such. So where the nodes of a file are placed, its findings are, and all ranges
of a file start and end with its tokens.
-/

namespace BrighterCheck

open BrighterCheck.Parser Item Range

variable {P : Range → Prop} {t : NumberedTree} {l : Located Nat} {x : Finding}

/-- A finding that is reported at a range in `P`. -/
def Finding.IsPlaced (P : Range → Prop) (x : Finding) : Prop :=
  ∃ r, x.range = some r ∧ P r

lemma finding_bounding (hP : MergeClosed P) {v : Violation} {r : Range} {rs : List (Option Range)}
    (hr : some r ∈ rs) (hl : ∀ o ∈ rs, Lies P o) : Finding.IsPlaced P ⟨v, bounding rs⟩ := by
  obtain ⟨b, hb⟩ := Option.ne_none_iff_exists'.1 (bounding_ne_none hr)
  exact ⟨b, hb, lies_bounding hP hl b hb⟩

/-- All nodes of a tree are placed in `P`. -/
def Tree.AllPlaced (P : Range → Prop) (t : NumberedTree) : Prop :=
  ∀ u ∈ t.preorder, u.IsPlaced P

namespace Tree

lemma AllPlaced.self (h : t.AllPlaced P) : t.IsPlaced P :=
  h t t.self_mem_preorder

lemma AllPlaced.child (h : t.AllPlaced P) {u : NumberedTree} (hu : u ∈ t.children) :
    u.AllPlaced P :=
  fun v hv => h v (mem_preorder_of_child hu hv)

lemma IsPlaced.token (h : t.IsPlaced P) {k : Token} (hk : k ∈ t.kind.tokens) : P k.range :=
  lies_some.1 (h.tokens _ (List.mem_map_of_mem hk))

/-- A node that is no body has a range. -/
lemma IsPlaced.exists_range (h : t.IsPlaced P) (hk : t.kind ≠ .body) :
    ∃ r, t.range = some r ∧ P r := by
  obtain ⟨r, hr⟩ := Option.ne_none_iff_exists'.1 fun hn => hk (h.range_eq_none.1 hn).1
  exact ⟨r, hr, h.range r hr⟩

lemma isPlaced_callfuncFindings {method : Token} {arguments : List NumberedTree}
    (hm : P method.range) (hx : x ∈ callfuncFindings method arguments) : x.IsPlaced P := by
  unfold callfuncFindings at hx
  split at hx
  · cases List.mem_singleton.1 hx
    exact ⟨_, rfl, hm⟩
  · cases hx

lemma isPlaced_parameterFindings {parameters : List NumberedTree}
    (h : ∀ p ∈ parameters, p.IsPlaced P) (hx : x ∈ parameterFindings parameters) :
    x.IsPlaced P := by
  obtain ⟨p, hp, hx⟩ := List.mem_filterMap.1 hx
  obtain ⟨name, hname, rfl⟩ := Option.map_eq_some_iff.1 hx
  refine ⟨_, rfl, (h p (List.mem_of_mem_drop hp)).token ?_⟩
  unfold parameterName? at hname
  split at hname
  · cases hname
    exact .head _
  · cases hname

/-- The target of an assignment to a member has an object, and is bounded by it and by tokens. -/
lemma isPlaced_targetRange (hP : MergeClosed P) (h : t.AllPlaced P) (ht : t.IsShaped)
    (hk : t.kind matches .dottedSet .. | .indexedSet ..) {v : Violation} :
    Finding.IsPlaced P ⟨v, t.targetRange⟩ := by
  obtain ⟨id, kind, range, children⟩ := t
  cases children with
  | nil =>
    cases kind with
    | dottedSet | indexedSet => exact absurd rfl ht
    | _ => cases hk
  | cons object rest =>
    have hobject := (h.child (.head _)).self.range
    cases kind with
    | dottedSet dot name op =>
      have hdot : P dot.range := h.self.token (.head _)
      have hname : P name.range := h.self.token (.tail _ (.head _))
      exact finding_bounding hP (.tail _ (.head _)) (by simp [hobject, hdot, hname])
    | indexedSet question opening close op =>
      have hopening : P opening.range := h.self.token (by simp [NodeKind.tokens])
      have hclose : P close.range := h.self.token (by simp [NodeKind.tokens])
      refine finding_bounding hP (r := opening.range) (by simp) ?_
      simp only [List.forall_mem_append, List.forall_mem_cons, List.forall_mem_map, lies_some]
      exact ⟨⟨⟨hobject, hopening, List.forall_mem_nil _⟩, fun u hu =>
        (h.child (.tail _ (List.dropLast_subset rest hu))).self.range⟩, hclose,
        List.forall_mem_nil _⟩
    | _ => cases hk

lemma isPlaced_assignmentFindings (hP : MergeClosed P) (h : t.AllPlaced P) (ht : t.IsShaped)
    (hk : t.kind matches .dottedSet .. | .indexedSet ..) (hx : x ∈ t.assignmentFindings) :
    x.IsPlaced P := by
  unfold assignmentFindings at hx
  split at hx
  · cases List.mem_singleton.1 hx
    exact isPlaced_targetRange hP h ht hk
  · cases hx

/-- A literal is the value or stands behind its sign. -/
lemma AllPlaced.literal? {value literal : NumberedTree} {k : Token} (h : value.AllPlaced P)
    (hl : value.literal? = some (k, literal)) : literal.AllPlaced P := by
  unfold Tree.literal? at hl
  split at hl
  · rename_i operand rest _ hc
    dsimp only at hl
    split at hl
    · cases hl
      exact h.child (hc ▸ .head rest)
    · cases hl
  · dsimp only at hl
    split at hl
    · cases hl
      exact h
    · cases hl

/-- A member of an enum is reported at its name, at its value or as a whole. -/
lemma isPlaced_enumFindingsFrom {type : String} {seen : List String}
    {members : List NumberedTree} (h : ∀ m ∈ members, m.AllPlaced P)
    (hx : x ∈ enumFindingsFrom type seen members) : x.IsPlaced P := by
  induction members generalizing seen with
  | nil => cases hx
  | cons member members ih =>
    have ih {seen : List String} (hx : x ∈ enumFindingsFrom type seen members) : x.IsPlaced P :=
      ih (fun m hm => h m (.tail _ hm)) hx
    have hmember := h member (.head _)
    obtain ⟨id, kind, range, children⟩ := member
    unfold enumFindingsFrom at hx
    cases kind with
    | enumMember name =>
      have hrange := hmember.self.exists_range NodeKind.noConfusion
      simp only [enumMember?, List.mem_append] at hx
      rcases hx with (hx | hx) | hx
      · unfold duplicateFindings at hx
        split at hx
        · cases List.mem_singleton.1 hx
          exact ⟨_, rfl, hmember.self.token (.head _)⟩
        · cases hx
      · unfold enumValueFindings at hx
        split at hx
        · split at hx
          · cases hx
          · cases List.mem_singleton.1 hx
            exact hrange
        · rename_i value hvalue
          split at hx
          · cases hx
          · -- A value that is no literal is not reported itself, but its member is.
            cases List.mem_singleton.1 hx
            have hvalue := hmember.child (List.mem_of_mem_head? hvalue)
            unfold Finding.IsPlaced
            cases hl : (value.literal?.bind fun (_, literal) => literal.range) with
            | none => exact hrange
            | some r =>
              obtain ⟨⟨k, literal⟩, hliteral, hr⟩ := Option.bind_eq_some_iff.1 hl
              exact ⟨r, rfl, (hvalue.literal? hliteral).self.range r hr⟩
      · exact ih hx
    | _ => exact ih hx

/-- Statements outside functions are no bodies, so they have a range to be reported at. -/
lemma isPlaced_outsideFindingsAll {ts : List NumberedTree} (h : ∀ t ∈ ts, t.AllPlaced P)
    (hs : ∀ t ∈ ts, ∀ u ∈ t.preorder, u.IsShaped) (hk : ∀ t ∈ ts, t.kind ≠ .body) :
    ∀ x ∈ outsideFindingsAll ts, x.IsPlaced P := by
  induction ts using outsideFindingsAll.induct
    (fun t => t.AllPlaced P → (∀ u ∈ t.preorder, u.IsShaped) → t.kind ≠ .body →
      ∀ x ∈ t.outsideFindings, x.IsPlaced P) with
  | case1 id keyword range name id' range' statements ih h hs _ x hx =>
    -- A namespace is not reported, but the statements of its body are.
    rw [outsideFindings] at hx
    have hbody {u : NumberedTree} (hu : u ∈ statements) {v : NumberedTree} (hv : v ∈ u.preorder) :
        v ∈ Tree.preorder ⟨id', .body, range', statements⟩ := mem_preorder_of_child hu hv
    exact ih (fun u hu v hv => h v (mem_preorder_of_child (.tail _ (.head _)) (hbody hu hv)))
      (fun u hu v hv => hs v (mem_preorder_of_child (.tail _ (.head _)) (hbody hu hv)))
      (hs ⟨id', .body, range', statements⟩
        (mem_preorder_of_child (.tail _ (.head _)) (self_mem_preorder _))) x hx
  | case2 id kind range children hn hallowed _ _ _ x hx =>
    rw [outsideFindings.eq_2 _ _ _ _ hn, if_pos hallowed] at hx
    cases hx
  | case3 id kind range children hn hallowed h _ hk x hx =>
    rw [outsideFindings.eq_2 _ _ _ _ hn, if_neg hallowed] at hx
    cases List.mem_singleton.1 hx
    exact h.self.exists_range hk
  | case4 => exact List.forall_mem_nil _
  | case5 t ts iht ihts =>
    intro x hx
    rcases List.mem_append.1 hx with hx | hx
    · exact iht (h t (.head _)) (hs t (.head _)) (hk t (.head _)) x hx
    · exact ihts (fun u hu => h u (.tail _ hu)) (fun u hu => hs u (.tail _ hu))
        (fun u hu => hk u (.tail _ hu)) x hx

/-- A directive that stands too late is reported at its own range. -/
lemma isPlaced_directiveFindings (h : t.AllPlaced P) (hx : x ∈ t.directiveFindings) :
    x.IsPlaced P := by
  have late {p : NodeKind → Bool} {v : Violation} (hp : p .body = false)
      (hx : x ∈ t.lateFindings p v) : x.IsPlaced P := by
    obtain ⟨u, hu, rfl⟩ := List.mem_map.1 hx
    have ⟨hmem, hu⟩ := List.mem_filter.1 hu
    refine (h u hmem).exists_range fun hk => ?_
    rw [hk, hp] at hu
    cases hu
  rcases List.mem_append.1 hx with hx | hx
  · exact late rfl hx
  · exact late rfl hx

end Tree

namespace Located

/-- A declaration is reported from its keyword to its name. -/
lemma isPlaced_placementFindings (hP : MergeClosed P) (h : l.node.AllPlaced P)
    (hx : x ∈ l.placementFindings) : x.IsPlaced P := by
  have hdeclaration {k : Token} {o : Option Range} (hd : l.declaration? = some (k, o)) :
      P k.range ∧ Lies P o := by
    unfold declaration? at hd
    split at hd
    case h_1 hk | h_2 hk | h_3 hk | h_4 hk =>
      cases hd
      exact ⟨h.self.token (by simp [hk, NodeKind.tokens]),
        lies_some.2 (h.self.token (by simp [hk, NodeKind.tokens]))⟩
    case h_5 name _ hk hc =>
      cases hd
      have hname : name ∈ l.node.children := by
        rw [hc]
        exact .head _
      exact ⟨h.self.token (by simp [hk, NodeKind.tokens]), (h.child hname).self.range⟩
    case h_6 name id keyword returns range children _ hk hc =>
      -- The keyword of a function stands in its definition.
      cases hd
      have hfunction : ⟨id, .functionExpression k returns, range, children⟩ ∈ l.node.children := by
        rw [hc]
        exact .head _
      exact ⟨(h.child hfunction).self.token (.head _),
        lies_some.2 (h.self.token (by simp [hk, NodeKind.tokens]))⟩
    case h_7 => cases hd
  unfold placementFindings at hx
  split at hx
  · cases hx
  · rename_i k o hd
    obtain ⟨hk, ho⟩ := hdeclaration hd
    split at hx
    · cases hx
    · cases List.mem_singleton.1 hx
      exact finding_bounding hP (.head _) (by simp [hk, ho])

lemma isPlaced_returnFindings (h : l.node.IsPlaced P) (hk : l.node.kind ≠ .body)
    (hx : x ∈ l.returnFindings) : x.IsPlaced P := by
  have hrange := h.exists_range hk
  unfold returnFindings at hx
  split at hx
  · cases hx
  · dsimp only at hx
    split at hx
    · cases List.mem_singleton.1 hx
      exact hrange
    · split at hx
      · cases List.mem_singleton.1 hx
        exact hrange
      · cases hx

lemma isPlaced_continueFindings {k : Token} {loop : Option Token} (h : l.node.IsPlaced P)
    (hk : l.node.kind = .continueLoop k loop) (hx : x ∈ l.continueFindings loop) :
    x.IsPlaced P := by
  unfold continueFindings at hx
  split at hx
  · cases List.mem_singleton.1 hx
    exact h.exists_range (by simp [hk])
  · dsimp only at hx
    split at hx
    · split at hx
      · cases hx
      · cases List.mem_singleton.1 hx
        exact ⟨_, rfl, h.token (by simp [hk, NodeKind.tokens])⟩
    · cases hx

/-- The findings of a node are placed with it. -/
theorem isPlaced_findings (hP : MergeClosed P) (h : l.node.AllPlaced P) (hs : l.node.IsShaped)
    (hx : x ∈ l.findings) : x.IsPlaced P := by
  unfold findings at hx
  split at hx
  case h_1 hk =>
    exact Tree.isPlaced_callfuncFindings (h.self.token (by simp [hk, NodeKind.tokens])) hx
  case h_2 hk =>
    rcases List.mem_append.1 hx with hx | hx
    · exact isPlaced_placementFindings hP h hx
    · exact Tree.isPlaced_enumFindingsFrom (fun m => h.child) hx
  case h_3 hk | h_4 hk =>
    exact Tree.isPlaced_assignmentFindings hP h hs (by rw [hk]) hx
  case h_5 hk =>
    exact Tree.isPlaced_parameterFindings
      (fun p hp => (h.child (List.dropLast_subset _ hp)).self) hx
  case h_6 hk => exact isPlaced_returnFindings h.self (by simp [hk]) hx
  case h_7 hk => exact isPlaced_continueFindings h.self hk hx
  case h_8 => exact isPlaced_placementFindings hP h hx

end Located

/-- The findings of a file are placed with its nodes. -/
theorem Tree.isPlaced_findings (hP : MergeClosed P) (h : t.AllPlaced P) (ht : t.IsScript)
    {typedef : Bool} (hx : x ∈ t.findings typedef) : x.IsPlaced P := by
  unfold findings at hx
  rcases List.mem_append.1 hx with hx | hx
  · rcases List.mem_append.1 hx with hx | hx
    · obtain ⟨l, hl, hx⟩ := List.mem_flatMap.1 hx
      have hmem := (preorder_sublist hl).subset l.node.self_mem_preorder
      have hall : l.node.AllPlaced P := fun u hu => h u ((preorder_sublist hl).subset hu)
      exact l.isPlaced_findings hP hall (ht.isShaped l.node hmem) hx
    · have hshaped := ht.isShaped t t.self_mem_preorder
      rw [IsShaped, ht.kind_eq] at hshaped
      exact isPlaced_outsideFindingsAll (fun u => h.child)
        (fun u hu v hv => ht.isShaped v (mem_preorder_of_child hu hv)) hshaped x hx
  · split at hx
    · cases hx
    · exact isPlaced_directiveFindings h hx

/-- The tokens of a source are aligned with themselves. -/
lemma TokenStream.aligned_of_mem {source : String} {s : TokenStream} (h : ofSource source = .ok s) :
    ∀ k ∈ s.tokens, k.range.Aligned s.tokens := by
  obtain ⟨q, hb⟩ := between_of_ofSource h
  intro k hk
  exact ⟨⟨k, hk, rfl⟩, ⟨k, hk, rfl⟩, (hb.within k.range (List.mem_map_of_mem hk)).start_lt⟩

namespace ParsedFile

/-- All nodes of a file are placed where its tokens are. -/
lemma allPlaced {source : String} {f : ParsedFile} (hP : MergeClosed P)
    (h : ofSource source = .ok f) (ht : ∀ k ∈ f.stream.tokens, P k.range) : f.tree.AllPlaced P := by
  obtain ⟨-, items, rest, hm⟩ := made_of_ofSource h
  obtain ⟨hi, hn⟩ := hm.reads.placedIn hP ht
  rw [hm.tree_eq]
  exact ((Production.body hm.lists).placedIn hP hi hn).isPlaced

/-- The diagnostics of a validation are placed where the tokens of the file are. -/
lemma exists_range_of_mem_items {source : String} {f : ParsedFile} (hP : MergeClosed P)
    (h : ofSource source = .ok f) (ht : ∀ k ∈ f.stream.tokens, P k.range) {scopes : Scopes}
    {typedef : Bool} {sink : Sink} {d : Diagnostic}
    (hd : d ∈ (Analysis.validate ⟨f.tree, scopes⟩ typedef sink).2.items) :
    ∃ r, d.range = some r ∧ P r := by
  rw [Analysis.items_validate] at hd
  obtain ⟨x, hx, rfl⟩ := List.mem_map.1 hd
  exact Tree.isPlaced_findings hP (allPlaced hP h ht) (isScript h) hx

/-- An error in the tokens of a source is placed where they are, or at their end. -/
lemma range_of_error {source : String} {s : TokenStream} {e : SourceError} (hP : MergeClosed P)
    (h : TokenStream.ofSource source = .ok s) (ht : ∀ k ∈ s.tokens, P k.range)
    (he : ofSource source = .error e) : e.range = s.eof.range ∨ P e.range := by
  -- Any names will do for the run, of which no more is used than where it ends.
  have hsettles := settles_fileStatements (nestedWithin 0) hP ⟨TokenStream.isLexed_start h, ht⟩
  rw [ofSource, h] at he
  cases hfile : fileStatements (.start s) with
  | ok ts rest => simp [ofStream, hfile, Except.mapError] at he
  | error e' rest =>
    rw [hfile] at hsettles
    simp only [ofStream, hfile, Except.mapError] at he
    cases he
    exact hsettles.blames

/--
In a file that was read only bodies without statements have no range, and all other ranges start
where a token starts and end where one ends, behind their start. So do the ranges of the diagnostics
of a validation. An error in the tokens of a source is reported at a token or at such a range.
-/
theorem ranges_aligned {source : String} {s : TokenStream}
    (h : TokenStream.ofSource source = .ok s) :
    (∀ f, ofSource source = .ok f →
      (∀ t ∈ f.tree.preorder, (t.range = none ↔ t.kind = .body ∧ t.children = []) ∧
        ∀ r ∈ t.range, r.Aligned s.tokens) ∧
      ∀ scopes typedef sink, ∀ d ∈ (Analysis.validate ⟨f.tree, scopes⟩ typedef sink).2.items,
        ∃ r, d.range = some r ∧ r.Aligned s.tokens) ∧
      ∀ e, ofSource source = .error e →
        (∃ t ∈ s.toList, e.range = t.range) ∨ e.range.Aligned s.tokens := by
  have hP := mergeClosed_aligned s.tokens
  have htokens := TokenStream.aligned_of_mem h
  constructor
  · intro f hf
    have hstream : f.stream = s := Except.ok.inj ((made_of_ofSource hf).1.symm.trans h)
    have hplaced : f.tree.AllPlaced (Aligned s.tokens) := allPlaced hP hf (hstream ▸ htokens)
    refine ⟨fun t ht => ⟨(hplaced t ht).range_eq_none, (hplaced t ht).range⟩, ?_⟩
    intro scopes typedef sink d hd
    exact exists_range_of_mem_items hP hf (hstream ▸ htokens) hd
  · intro e he
    refine (range_of_error hP h htokens he).imp_left fun heof => ⟨s.eof, ?_, heof⟩
    exact List.mem_append_right _ (.head _)

/-- A file with a branch without statements, and a conditional outside functions. -/
theorem ranges_aligned_of_empty_branch :
    ∃ s f, TokenStream.ofSource "if a\nend if" = .ok s ∧ ofSource "if a\nend if" = .ok f ∧
      (∃ t ∈ f.tree.preorder, t.kind = .body ∧ t.children = [] ∧ t.range = none) ∧
      ∃ d ∈ (Analysis.validate ⟨f.tree, .empty⟩ false ⟨0, []⟩).2.items,
        ∃ r, d.range = some r ∧ r.Aligned s.tokens := by
  have hsource : (ofSource "if a\nend if").toOption.any fun f =>
      (f.tree.preorder.any fun t => t.range.isNone) &&
        !(f.tree.findings false).isEmpty := by
    decide +kernel
  obtain ⟨f, hf, hsource⟩ := exists_of_any hsource
  obtain ⟨hbody, hfindings⟩ := Bool.and_eq_true_iff.1 hsource
  obtain ⟨hs, -⟩ := made_of_ofSource hf
  obtain ⟨hnodes, hitems⟩ := (ranges_aligned hs).1 f hf
  refine ⟨f.stream, f, hs, hf, ?_, ?_⟩
  · obtain ⟨t, ht, hnone⟩ := List.any_eq_true.1 hbody
    have hnone := Option.isNone_iff_eq_none.1 hnone
    obtain ⟨hkind, hchildren⟩ := (hnodes t ht).1.1 hnone
    exact ⟨t, ht, hkind, hchildren, hnone⟩
  · have hitems := hitems .empty false ⟨0, []⟩
    rw [Analysis.items_validate] at hitems ⊢
    cases hx : f.tree.findings false with
    | nil => simp [hx] at hfindings
    | cons x xs =>
      rw [hx] at hitems
      exact ⟨_, .head _, hitems _ (.head _)⟩

end ParsedFile

end BrighterCheck
