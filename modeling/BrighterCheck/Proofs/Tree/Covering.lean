import BrighterCheck.Proofs.Lexer.Order
import BrighterCheck.Proofs.Parser.Order
import BrighterCheck.Proofs.Parser.Soundness.File
import BrighterCheck.Proofs.Tree.Located

/-!
# Nodes that cover their children

The range of a node covers the ranges of its children, with one exception: behind `#else if`, the
range of an arm of conditional compilation is that of its keyword alone if nothing follows its
condition, and does not reach this condition.
-/

namespace BrighterCheck

open BrighterCheck.Parser Item Range

/-- An arm of conditional compilation behind the first one, which starts with `if`. -/
def NodeKind.isLaterArm : NodeKind → Bool
  | .conditionalBlock k => k.kind = .keyword .ifKw
  | _ => false

/-- The child `u` is the condition of a later arm `t`, behind which there are empty bodies only. -/
def IsBare (t u : NumberedTree) : Prop :=
  t.kind.isLaterArm = true ∧ t.children.head? = some u ∧ ∀ b ∈ t.children.tail, b.children = []

/-- A node covers its children, but no condition that is bare. -/
def Covering (t : NumberedTree) : Prop :=
  ∀ r ∈ t.range, ∀ u ∈ t.children, ∀ s ∈ u.range, r.Covers s ↔ ¬ IsBare t u

variable {p q : Position} {c d : Category} {kind : NodeKind} {range : Option Range}
  {items : List Item} {t : NumberedTree}

/-- What encloses its items covers its children, unless it is a later arm. -/
lemma covering_of_encloses {id : Nat} (hk : kind.isLaterArm = false) (h : Encloses range items) :
    Covering ⟨id, kind, range, nodes items⟩ :=
  fun r hr u hu s hs => iff_of_true (h r hr u hu s hs) fun hb => by
    rw [hb.1] at hk
    cases hk

/-- A later arm is of its own category. -/
lemma Production.eq_arm (h : Production c kind range items) (hk : kind.isLaterArm = true) :
    c = .arm .compile (.keyword .ifKw) := by
  cases h with
  | @arm form =>
    cases form with
    | compile => rw [of_decide_eq_true hk]
    | block | inline => cases hk
  | extended h | single h | named h => cases h <;> cases hk
  | _ => cases hk

/-- A list holds an arm only if it is a list of arms. -/
lemma Listed.eq_arm {among : TokenKind → Bool} {form : ArmForm} {word : TokenKind}
    (h : Listed c among items) (ht : .node (.arm form word) t ∈ items) : .arm form word = c :=
  h _ ht

lemma node_not_mem_tokens (ts : List Token) : .node c t ∉ tokens ts := by
  simp [tokens]

lemma Typed.node_not_mem {mark : Keyword} {type : Option Token} (h : Typed mark type items) :
    .node c t ∉ items := by
  cases h <;> simp

lemma Valued.arm_not_mem {mark : TokenKind} {value : Option NumberedTree} {form : ArmForm}
    {word : TokenKind} (h : Valued mark value items) : .node (.arm form word) t ∉ items := by
  cases h <;> simp

/-- The arms inside a node are later ones. -/
lemma Production.word_eq {form : ArmForm} {word : TokenKind} (h : Production c kind range items)
    (ht : .node (.arm form word) t ∈ items) : word = .keyword .ifKw := by
  cases h with
  | arm _ _ ho => cases ho <;> simp_all [node_not_mem_tokens]
  | body hl => cases hl.eq_arm ht
  | print _ hl => cases hl.eq_arm (by simpa using ht)
  | dim _ _ _ hl => cases hl.eq_arm (by simpa using ht)
  | array _ hl => cases hl.eq_arm (by simpa using ht)
  | record _ hl => cases hl.eq_arm (by simpa using ht)
  | call _ _ hl => cases hl.eq_arm (by simpa using ht)
  | callfunc _ _ _ hl => cases hl.eq_arm (by simpa using ht)
  | indexedGet _ hl => cases hl.eq_arm (by simpa [node_not_mem_tokens] using ht)
  | enumDeclaration _ _ hl => cases hl.eq_arm (by simpa [node_not_mem_tokens] using ht)
  | classDeclaration _ _ hp hl | interfaceDeclaration _ _ hp hl
  | functionExpression _ _ _ _ hl _ hp =>
    cases hl.eq_arm (by simpa [node_not_mem_tokens, hp.node_not_mem] using ht)
  | forLoop _ _ hv | enumMember _ hv =>
    simp [node_not_mem_tokens, hv.arm_not_mem] at ht
  | field _ _ _ hp hv | parameter _ hv hp =>
    simp [node_not_mem_tokens, hp.node_not_mem, hv.arm_not_mem] at ht
  | interfaceField _ hp | interfaceMethod _ _ _ _ hp =>
    simp [node_not_mem_tokens, hp.node_not_mem] at ht
  | _ => simp [node_not_mem_tokens] at ht

/-- A keyword that stands before a condition does not cover it. -/
lemma not_covers_condition {k : Token} {condition : NumberedTree} {rest : List Item} {s : Range}
    (hb : Between p (ranges (.token k :: .node .expression condition :: rest)) q)
    (hs : condition.range = some s) : ¬ k.range.Covers s := by
  rw [ranges_cons, ranges_cons, range_token, range_node, hs] at hb
  intro hk
  cases hb with
  | cons _ _ hb =>
    cases hb with
    | cons hp hlt _ => exact absurd (hlt.trans_le hk.2) (not_lt_of_ge hp)

/-- Behind an arm that is no empty body only, there is something with a range. -/
lemma Others.range_ne_none {form : ArmForm} {other : Option NumberedTree} {others : List Item}
    (ho : Others form other others) (hp : ∀ c t, .node c t ∈ others → Placed c p t q)
    (ht : t ∈ other) (hn : t.children ≠ []) : t.range ≠ Option.none := by
  cases ho with
  | none => cases ht
  | last | arm =>
    cases ht
    exact fun hr => hn ((hp _ t (.tail _ (.head _))).empty.1 hr).2

/-- Behind an arm, there is nothing with a range but a body with statements or another arm. -/
lemma Others.range_eq_none {form : ArmForm} {other : Option NumberedTree} {others : List Item}
    (ho : Others form other others) (hp : ∀ c t, .node c t ∈ others → Placed c p t q)
    (he : ∀ t ∈ other, t.children = []) : other.bind Tree.range = Option.none := by
  cases ho with
  | none => rfl
  | @last e b => exact (hp .body b (.tail _ (.head _))).empty.2 ⟨rfl, he b rfl⟩
  | @arm e t => exact absurd (he t rfl) ((hp _ t (.tail _ (.head _))).nonempty _ _ rfl)

/-- A later arm covers its condition if anything follows it. -/
lemma covering_laterArm {id : Nat} {k : Token} {condition b : NumberedTree} {thens : List Token}
    {other : Option NumberedTree} {others : List Item} (hk : k.kind = .keyword .ifKw)
    (ho : Others .compile other others)
    (hb : Between p (ranges (.token k :: .node .expression condition :: tokens thens ++
      .node .body b :: others)) q)
    (hp : ∀ c t, .node c t ∈ .node .body b :: others → Placed c p t q) :
    Covering ⟨id, .conditionalBlock k, ArmForm.compile.range k condition b other,
      condition :: b :: other.toList⟩ := by
  have hbody := hp .body b (.head _)
  have hothers : ∀ c t, .node c t ∈ others → Placed c p t q := fun c t ht => hp c t (.tail _ ht)
  have hnodes : nodes (.token k :: .node .expression condition :: tokens thens ++
      .node .body b :: others) = condition :: b :: other.toList := by
    simp [ho.nodes_eq]
  intro r hr u hu s hs
  by_cases he : ∀ v ∈ b :: other.toList, v.children = []
  · -- nothing behind the condition has a range
    have hbr : b.range = none := hbody.empty.2 ⟨rfl, he b (.head _)⟩
    have hor : other.bind Tree.range = none :=
      ho.range_eq_none hothers fun v hv => he v (.tail _ (Option.mem_toList.2 hv))
    have hr : k.range = r := by
      simpa [ArmForm.range, hbr, hor, bounding, Option.merge] using hr
    subst hr
    have hu : u = condition := by
      rcases List.mem_cons.1 hu with rfl | hu
      · rfl
      · rcases List.mem_cons.1 hu with rfl | hu
        · cases hbr.symm.trans hs
        · cases hor.symm.trans (Option.bind_eq_some_iff.2 ⟨u, Option.mem_toList.1 hu, hs⟩)
    subst hu
    exact iff_of_false (not_covers_condition hb hs) (not_not_intro
      ⟨by simp [NodeKind.isLaterArm, hk], rfl, he⟩)
  · -- a body with statements or the next arm has one, which lies behind the condition
    have hne : b.range ≠ none ∨ other.bind Tree.range ≠ none := by
      by_contra hn
      simp only [not_or, not_not] at hn
      refine he fun v hv => ?_
      rcases List.mem_cons.1 hv with rfl | hv
      · exact (hbody.empty.1 hn.1).2
      · have hv := Option.mem_toList.1 hv
        by_contra hc
        exact ho.range_ne_none hothers hv hc (by simpa [Option.mem_def.1 hv] using hn.2)
    obtain ⟨m, hm⟩ : ∃ m, b.range = some m ∨ other.bind Tree.range = some m := by
      rcases hne with hne | hne
      · exact (Option.ne_none_iff_exists'.1 hne).imp fun _ => .inl
      · exact (Option.ne_none_iff_exists'.1 hne).imp fun _ => .inr
    refine iff_of_true ?_ fun hbare => he hbare.2.2
    exact encloses_arm ho hb hm r hr u (hnodes ▸ hu) s hs

/-- A later arm of conditional compilation, as its production makes it. -/
lemma Production.covering_arm {word : TokenKind} {id : Nat}
    (h : Production (.arm .compile word) kind range items) (hw : word = .keyword .ifKw)
    (hb : Between p (ranges items) q) (hp : ∀ c t, .node c t ∈ items → Placed c p t q) :
    Covering ⟨id, kind, range, nodes items⟩ := by
  obtain ⟨k, condition, b, thens, other, others, hk, ho, rfl, rfl, rfl⟩ := h.arm_inv
  have hnodes : nodes (.token k :: .node .expression condition :: tokens thens ++
      .node .body b :: others) = condition :: b :: other.toList := by
    simp [ho.nodes_eq]
  rw [hnodes]
  exact covering_laterArm (hk.trans hw) ho hb fun c t ht => hp c t (List.mem_append_right _ ht)

/-- Places where a node covers its children: everywhere but where a first arm waits for its end. -/
def Category.IsSettled (c : Category) : Prop :=
  ∀ word, c = .arm .compile word → word = .keyword .ifKw

/-- A node covers its children, unless it is a first arm that waits for its end. -/
lemma Production.covering {id : Nat} (h : Production c kind range items) (hc : c.IsSettled)
    (hb : Between p (ranges items) q) (hp : ∀ c t, .node c t ∈ items → Placed c p t q) :
    Covering ⟨id, kind, range, nodes items⟩ := by
  by_cases hcompile : ∃ word, c = .arm .compile word
  · obtain ⟨word, rfl⟩ := hcompile
    exact h.covering_arm (hc word rfl) hb hp
  · have hne : ∀ word, c ≠ .arm .compile word := fun word hw => hcompile ⟨word, hw⟩
    refine covering_of_encloses ?_ (h.encloses hne hb hp)
    by_contra hk
    exact hne _ (h.eq_arm (by simpa using hk))

/-- All nodes below a node cover their children, and so does the node if it is settled. -/
def Spanned (c : Category) (t : NumberedTree) : Prop :=
  (∀ u ∈ Tree.preorderAll t.children, Covering u) ∧ (c.IsSettled → Covering t)

/-- What is spanned in all its parts is so below the node that is made of them. -/
lemma Production.spanned_below (h : Production c kind range items)
    (hs : ∀ d t, .node d t ∈ items → Spanned d t) :
    ∀ u ∈ Tree.preorderAll (nodes items), Covering u := by
  intro u hu
  obtain ⟨t, ht, hu⟩ := Tree.mem_preorderAll.1 hu
  obtain ⟨d, hi⟩ := mem_nodes.1 ht
  rcases Tree.mem_preorder.1 hu with rfl | hu
  · refine (hs d u hi).2 fun word hd => ?_
    subst hd
    exact h.word_eq hi
  · exact (hs d t hi).1 u hu

/-- An arm starts with a word that it covers. -/
lemma Production.arm_starts {form : ArmForm} {word : TokenKind}
    (h : Production (.arm form word) kind range items) :
    ∃ k inside c, items = .token k :: inside ∧ range = some c ∧ c.Covers k.range := by
  obtain ⟨k, condition, b, thens, other, others, -, -, -, rfl, rfl⟩ := h.arm_inv
  obtain ⟨c, hc, hcovers⟩ : ∃ c, form.range k condition b other = some c ∧ c.Covers k.range := by
    cases form <;> exact exists_bounding_covers (.head _)
  exact ⟨k, _, c, rfl, hc, hcovers⟩

/-- The end of a first arm lies behind everything else in it. -/
lemma Production.covering_extend {id : Nat} {r : Range} {form : ArmForm} {ends : List Token}
    {e : Ending} (h : Production (.arm form form.first) kind range items)
    (hb : Between p (ranges (items ++ tokens ends)) q) (hf : Finish e ends r) :
    Covering (Tree.extend ⟨id, kind, range, nodes items⟩ r) := by
  have hkind : kind.isLaterArm = false := by
    by_contra hk
    cases h.eq_arm (by simpa using hk)
  obtain ⟨k, inside, c, rfl, hrange, hcovers⟩ := h.arm_starts
  have hencloses := encloses_of_ends (.token k) inside ends rfl hb rfl
    ((covers_merge_left c r).trans hcovers)
    (hf.covers.imp fun _ h => ⟨h.1, (covers_merge_right c r).trans h.2⟩)
  rw [← List.cons_append] at hencloses
  subst hrange
  have hnodes : nodes (.token k :: inside) = nodes (.token k :: inside ++ tokens ends) := by simp
  rw [hnodes]
  exact covering_of_encloses hkind hencloses

/-- An assignment is no arm, and its children are among those of its target and its value. -/
lemma assignment?_parts {target value t : NumberedTree} {op : Token}
    (h : assignment? target op value = some t) :
    target.kind.isLaterArm = false ∧ t.kind.isLaterArm = false ∧
      ∀ u ∈ t.children, u ∈ target.children ∨ u = value := by
  unfold assignment? at h
  split at h
  case h_1 hk => cases h; simp [hk, NodeKind.isLaterArm]
  case h_2 hk => cases h; simp [hk, NodeKind.isLaterArm]
  case h_3 hk => cases h; simp [hk, NodeKind.isLaterArm]
  case h_4 => cases h

/-- An assignment covers its value and everything that its target covers. -/
lemma covering_assignment {target value t : NumberedTree} {op : Token}
    (ha : assignment? target op value = some t) (hr : target.range ≠ none)
    (ht : Covering target) : Covering t := by
  have hrange := assignment?_range ha
  obtain ⟨htarget, hkind, hchildren⟩ := assignment?_parts ha
  obtain ⟨c, hc⟩ := Option.ne_none_iff_exists'.1 hr
  intro r hr u hu s hs
  have hcover : r.Covers s := by
    rcases hchildren u hu with hu | rfl
    · have hcs : c.Covers s := (ht c hc u hu s hs).2 fun hb => by
        rw [hb.1] at htarget
        cases htarget
      exact (bounding_covers (hrange ▸ hr) (hc ▸ .head _)).trans hcs
    · exact bounding_covers (hrange ▸ hr) (hs ▸ .tail _ (.head _))
  refine iff_of_true hcover fun hb => ?_
  rw [hb.1] at hkind
  cases hkind

/-- Everything below an assignment is below its target or its value. -/
lemma spanned_assignment {target value t : NumberedTree} {op : Token}
    (ha : assignment? target op value = some t) (hr : target.range ≠ none)
    (ht : Spanned .expression target) (hv : Spanned .expression value) : Spanned .statement t := by
  refine ⟨fun u hu => ?_, fun _ => covering_assignment ha hr (ht.2 nofun)⟩
  obtain ⟨w, hw, hu⟩ := Tree.mem_preorderAll.1 hu
  rcases (assignment?_parts ha).2.2 w hw with hw | rfl
  · exact ht.1 u (Tree.mem_preorderAll.2 ⟨w, hw, hu⟩)
  · rcases Tree.mem_preorder.1 hu with rfl | hu
    · exact hv.2 nofun
    · exact hv.1 u hu

lemma inherits_spanned {tokens : List Token} (hb : Between p (tokens.map Token.range) q) :
    Inherits tokens Spanned where
  made hs hr hp hi := by
    obtain ⟨m, hb⟩ := between_of_suffix hs hb
    obtain ⟨n, hitems, -, hn⟩ := hr.placed hb
    exact ⟨hp.spanned_below hi, fun hc => hp.covering hc hitems hn⟩
  assigned hs hr _ _ ha ht hv := by
    obtain ⟨m, hb⟩ := between_of_suffix hs hb
    obtain ⟨n, -, -, hn⟩ := hr.placed hb
    have htarget := hn _ _ (.head _)
    exact spanned_assignment ha (fun hr => nomatch (htarget.empty.1 hr).1) ht hv
  inlined h := ⟨h.1, fun _ => h.2 nofun⟩
  closed hs hr hp he hf hi := by
    obtain ⟨m, hb⟩ := between_of_suffix hs hb
    obtain ⟨n, hitems, hrest, -⟩ := hr.placed hb
    obtain ⟨v, hends, -, -⟩ := he.placed hrest
    have hall := hitems.append hends
    rw [← ranges_append] at hall
    exact ⟨hp.spanned_below hi, fun _ => hp.covering_extend hall hf⟩

/-- Every node that is read covers its children, unless it is a first arm that waits for its end. -/
theorem Reads.spanned {s s' : Reading} (h : Reads s items s')
    (hb : Between p (s.tokens.map Token.range) q) : ∀ c t, .node c t ∈ items → Spanned c t :=
  h.forall_node (inherits_spanned hb) (List.suffix_refl _)

namespace ParsedFile

/-- In a file that was read, a node covers a child unless the child is a bare condition. -/
theorem covers_iff_not_isBare {source : String} {f : ParsedFile} (h : ofSource source = .ok f) :
    ∀ t ∈ f.tree.preorder, ∀ r ∈ t.range, ∀ u ∈ t.children, ∀ s ∈ u.range,
      r.Covers s ↔ ¬ IsBare t u := by
  obtain ⟨hs, items, rest, hmade⟩ := made_of_ofSource h
  obtain ⟨q, hb⟩ := TokenStream.between_of_ofSource hs
  have hspanned := hmade.reads.spanned hb
  have hbody : Production .body .body (bounding ((nodes items).map Tree.range)) items :=
    .body hmade.lists
  obtain ⟨m, hi, -, hn⟩ := hmade.reads.placed hb
  intro t ht
  rw [hmade.tree_eq] at ht
  rcases Tree.mem_preorder.1 ht with rfl | ht
  · exact hbody.covering nofun hi hn
  · exact hbody.spanned_below hspanned t ht

/-- The second arm does not cover its condition, as nothing follows it. -/
theorem not_covers_bare_condition :
    ∃ f, ofSource "#if true\n#else if false\n#end if" = .ok f ∧
      ∃ t ∈ f.tree.preorder, ∃ r ∈ t.range, ∃ u ∈ t.children, ∃ s ∈ u.range, ¬ r.Covers s := by
  have hsource : (ofSource "#if true\n#else if false\n#end if").toOption.any fun f =>
      f.tree.preorder.any fun t => t.range.any fun r => t.children.any fun u =>
        u.range.any fun s => !decide (r.Covers s) := by
    decide +kernel
  obtain ⟨f, hf, hsource⟩ := exists_of_any hsource
  exact ⟨f, hf, by simpa [Option.any_eq_true] using hsource⟩

/-- With a statement behind it, the second arm covers its condition. -/
theorem covers_iff_not_isBare_of_statement :
    ∃ f, ofSource "#if true\n#else if false\nx = 1\n#end if" = .ok f ∧
      ∀ t ∈ f.tree.preorder, ∀ r ∈ t.range, ∀ u ∈ t.children, ∀ s ∈ u.range,
        r.Covers s ↔ ¬ IsBare t u := by
  have hread : (ofSource "#if true\n#else if false\nx = 1\n#end if").toOption.any
      fun _ => true := by
    decide +kernel
  obtain ⟨f, hf, -⟩ := exists_of_any hread
  exact ⟨f, hf, covers_iff_not_isBare hf⟩

end ParsedFile

end BrighterCheck
