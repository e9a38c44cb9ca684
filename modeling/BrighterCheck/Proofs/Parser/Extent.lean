import BrighterCheck.Proofs.Parser.Inversion
import BrighterCheck.Proofs.Text.Range

/-!
# The ranges of productions

The range of a node is merged from those of its items, so it lies wherever they all lie. It is left
out for a body without statements alone.
-/

namespace BrighterCheck

open BrighterCheck.Parser Item Range

variable {P : Range → Prop} {r : Range}

namespace Item

@[simp] lemma range_token (t : Token) : (Item.token t).range = some t.range := rfl

@[simp] lemma range_node (c : Category) (t : NumberedTree) : (Item.node c t).range = t.range := rfl

end Item

/-- A range that is there lies in `P`. -/
def Lies (P : Range → Prop) (o : Option Range) : Prop :=
  ∀ r ∈ o, P r

@[simp] lemma lies_none : Lies P none := nofun

@[simp] lemma lies_some : Lies P (some r) ↔ P r :=
  ⟨fun h => h r rfl, fun h _ hr => Option.some.inj hr ▸ h⟩

lemma lies_bounding (hP : MergeClosed P) {rs : List (Option Range)} (h : ∀ o ∈ rs, Lies P o) :
    Lies P (bounding rs) :=
  fun _ hr => hP.bounding (fun s hs => h _ hs s rfl) hr

lemma lies_pair (hP : MergeClosed P) {o o' : Option Range} (h : Lies P o) (h' : Lies P o') :
    Lies P (bounding [o, o']) :=
  lies_bounding hP (by simp [h, h'])

lemma lies_merge (hP : MergeClosed P) {k e : Range} (hk : Lies P (some k))
    (he : Lies P (some e)) : Lies P (some (k.merge e)) :=
  lies_some.2 (hP (lies_some.1 hk) (lies_some.1 he))

/-- All items lie in `P`. -/
def LieAll (P : Range → Prop) (items : List Item) : Prop :=
  ∀ i ∈ items, Lies P i.range

@[simp] lemma lieAll_nil : LieAll P [] :=
  List.forall_mem_nil _

@[simp] lemma lieAll_cons {i : Item} {items : List Item} :
    LieAll P (i :: items) ↔ Lies P i.range ∧ LieAll P items :=
  List.forall_mem_cons

@[simp] lemma lieAll_append {xs ys : List Item} :
    LieAll P (xs ++ ys) ↔ LieAll P xs ∧ LieAll P ys :=
  List.forall_mem_append

@[simp] lemma lieAll_tokens_option {o : Option Token} :
    LieAll P (tokens o.toList) ↔ Lies P (o.map Token.range) := by
  cases o <;> simp [tokens]

@[simp] lemma lieAll_nodes_option {c : Category} {o : Option NumberedTree} :
    LieAll P (o.toList.map (.node c)) ↔ Lies P (o.bind Tree.range) := by
  cases o <;> simp

/-- What holds of the tokens that a folded token was read from holds of its range. -/
lemma Folded.range (hP : MergeClosed P) {raw : List Token} {t : Token}
    (h : Folded raw t) (hb : ∀ s ∈ raw.map Token.range, P s) : P t.range := by
  induction h with
  | one => exact hb _ (.head _)
  | name => exact hb _ (.head _)
  | dotted _ _ _ _ ih =>
    simp only [List.map_append, List.mem_append] at hb
    exact hP (ih fun s hs => hb s (.inl hs)) (hb _ (.inr (.tail _ (.head _))))
  | forEach => exact hP (hb _ (.head _)) (hb _ (.tail _ (.head _)))

/-- The nodes among the items lie where all items lie. -/
lemma LieAll.lies {items : List Item} {t : NumberedTree} (hi : LieAll P items)
    (ht : t ∈ nodes items) : Lies P t.range := by
  obtain ⟨c, hmem⟩ := mem_nodes.1 ht
  exact hi _ hmem

lemma Typed.lies {mark : Keyword} {type : Option Token} {items : List Item}
    (h : Typed mark type items) (hi : LieAll P items) : Lies P (type.map Token.range) := by
  cases h with
  | none => exact lies_none
  | some => exact (lieAll_cons.1 (lieAll_cons.1 hi).2).1

lemma Valued.lies {mark : TokenKind} {value : Option NumberedTree} {items : List Item}
    (h : Valued mark value items) (hi : LieAll P items) : Lies P (value.bind Tree.range) := by
  cases h with
  | none => exact lies_none
  | some => exact (lieAll_cons.1 (lieAll_cons.1 hi).2).1

lemma Others.lies {form : ArmForm} {other : Option NumberedTree} {items : List Item}
    (h : Others form other items) (hi : LieAll P items) : Lies P (other.bind Tree.range) := by
  cases h with
  | none => exact lies_none
  | last => exact (lieAll_cons.1 (lieAll_cons.1 hi).2).1
  | arm => exact (lieAll_cons.1 (lieAll_cons.1 hi).2).1

/-- The words that end a block cover a range that lies where they lie. -/
lemma Finish.range (hP : MergeClosed P) {e : Ending} {ends : List Token} (h : Finish e ends r)
    (hi : LieAll P (tokens ends)) : P r := by
  cases h with
  | one => exact lies_some.1 (hi _ (.head _))
  | two => exact hP (lies_some.1 (hi _ (.head _))) (lies_some.1 (hi _ (.tail _ (.head _))))

/-- The range of a node lies where its items lie. -/
theorem Production.lies (hP : MergeClosed P) {c : Category} {kind : NodeKind}
    {range : Option Range} {items : List Item} (h : Production c kind range items)
    (hi : LieAll P items) (hc : ∀ close t, .node (.construction close) t ∈ items → P close.range) :
    Lies P range := by
  cases h with
  | body =>
    refine lies_bounding hP fun o ho => ?_
    obtain ⟨t, ht, rfl⟩ := List.mem_map.1 ho
    exact hi.lies ht
  | print =>
    refine lies_bounding hP fun o ho => ?_
    rcases List.mem_cons.1 ho with rfl | ho
    · exact hi _ (.head _)
    · obtain ⟨t, ht, rfl⟩ := List.mem_map.1 ho
      exact (lieAll_cons.1 hi).2.lies ht
  | @arm form k condition thens b other others ht _ ho =>
    simp only [lieAll_append, lieAll_cons, range_node, range_token] at hi
    obtain ⟨⟨hk, hc, -⟩, hb, hothers⟩ := hi
    have hother := ho.lies hothers
    cases form <;> exact lies_bounding hP (by simp_all)
  | @method access =>
    simp only [lieAll_append, lieAll_tokens_option] at hi
    cases access <;> exact lies_bounding hP (by simp_all)
  | @field access overriding name type types value values _ _ _ ht hv =>
    simp only [lieAll_append, lieAll_cons, range_token, lieAll_tokens_option] at hi
    obtain ⟨ha, ho, hn, htypes, hvalues⟩ := hi
    have htype := ht.lies htypes
    have hvalue := hv.lies hvalues
    cases access <;> exact lies_bounding hP (by simp_all)
  | interfaceField _ ht =>
    cases ht with
    -- Without a type, the range of the name is merged with itself.
    | none => exact lies_merge hP (hi _ (.head _)) (hi _ (.head _))
    | some => exact lies_merge hP (hi _ (.head _)) (hi _ (.tail _ (.tail _ (.head _))))
  | @interfaceMethod k name parameters returns opening ts close types _ _ _ _ ht =>
    simp only [lieAll_append, lieAll_cons] at hi
    obtain ⟨hk, -, -, -, hclose, htypes⟩ := hi
    cases ht with
    | none => exact lies_merge hP hk hclose
    | some => exact lies_merge hP hk (lieAll_cons.1 (lieAll_cons.1 htypes).2).1
  | enumMember _ hv =>
    have hvalue := hv.lies (lieAll_cons.1 hi).2
    exact lies_bounding hP (by simp_all)
  | parameter _ hv ht =>
    simp only [lieAll_append, lieAll_cons] at hi
    have hvalue := hv.lies hi.2.1
    have htype := ht.lies hi.2.2
    exact lies_bounding hP (by simp_all)
  | @new k call close =>
    -- The range ends with a token of the call, which is not among the items.
    exact lies_merge hP (hi _ (.head _)) (lies_some.2 (hc close call (.tail _ (.head _))))
  | comment | single | literal | name | expressionStatement | function => exact hi _ (.head _)
  | counter | increment | throwStatement | named | unary | binary | dottedGet | recordMember
  | catchClause | extended | returnStatement | indexedGet | call | callfunc =>
    exact lies_bounding hP (by simp_all)
  | dim | grouping | array | record | typecast =>
    simp only [lieAll_append, lieAll_cons] at hi
    exact lies_merge hP hi.1 (by simp_all)
  | whileLoop _ he | forLoop _ _ _ he | forEachLoop _ _ _ he | tryStatement _ he
  | namespaceDeclaration _ _ he | classDeclaration _ _ _ _ he | interfaceDeclaration _ _ _ _ he
  | enumDeclaration _ _ _ he | functionExpression _ _ _ _ _ _ _ he =>
    simp only [lieAll_append, lieAll_cons] at hi
    exact lies_merge hP hi.1 (lies_some.2 (he.range hP (by simp_all)))

lemma bounding_ne_none {rs : List (Option Range)} (h : some r ∈ rs) : bounding rs ≠ none := by
  obtain ⟨b, hb, -⟩ := exists_bounding_covers h
  rw [hb]
  nofun

/-- Every node that is not a body has a range. -/
theorem Production.range_ne_none {c : Category} {kind : NodeKind} {range : Option Range}
    {items : List Item} (h : Production c kind range items) (hc : c ≠ .body)
    (hr : ∀ c t, .node c t ∈ items → c ≠ .body → t.range ≠ none) : range ≠ none := by
  cases h with
  | body => exact absurd rfl hc
  | expressionStatement | function => exact hr _ _ (.head _) (by nofun)
  | @method access overriding name f =>
    obtain ⟨r, hr⟩ := Option.ne_none_iff_exists'.1 (hr (.definition name) f (by simp) (by nofun))
    exact bounding_ne_none (r := r) (by simp [hr])
  | binary =>
    obtain ⟨r, hr⟩ := Option.ne_none_iff_exists'.1 (hr _ _ (.head _) (by nofun))
    exact bounding_ne_none (r := r) (by simp [hr])
  | @arm form => cases form <;> exact bounding_ne_none (.head _)
  | counter | print | extended | returnStatement | throwStatement | catchClause | named | enumMember
  | recordMember | parameter | unary =>
    exact bounding_ne_none (.head _)
  | increment | field | dottedGet | indexedGet | call | callfunc =>
    exact bounding_ne_none (.tail _ (.head _))
  -- All others have the range of a token, or a range that ends with one.
  | _ => nofun

/-- A body whose statements have no range has no statements. -/
lemma nodes_eq_nil_of_bounding {items : List Item} (hl : Listed .statement isSeparator items)
    (hr : ∀ c t, .node c t ∈ items → c ≠ .body → t.range ≠ none)
    (hn : bounding ((nodes items).map Tree.range) = none) : nodes items = [] := by
  refine List.eq_nil_iff_forall_not_mem.2 fun t ht => ?_
  obtain ⟨c, hi⟩ := mem_nodes.1 ht
  cases hl _ hi
  obtain ⟨r, hr⟩ := Option.ne_none_iff_exists'.1 (hr .statement t hi (by nofun))
  exact bounding_ne_none (List.mem_map.2 ⟨t, ht, hr⟩) hn

/-- Bodies without statements, and no other nodes, have no range. -/
theorem Production.range_eq_none_iff {c : Category} {kind : NodeKind} {range : Option Range}
    {items : List Item} (h : Production c kind range items)
    (hr : ∀ c t, .node c t ∈ items → c ≠ .body → t.range ≠ none) :
    range = none ↔ c = .body ∧ nodes items = [] := by
  constructor
  · intro hn
    have hc : c = .body := by
      by_contra hc
      exact h.range_ne_none hc hr hn
    subst hc
    obtain ⟨-, rfl, hl⟩ := h.body_inv
    exact ⟨rfl, nodes_eq_nil_of_bounding hl hr hn⟩
  · rintro ⟨rfl, hn⟩
    obtain ⟨-, rfl, -⟩ := h.body_inv
    rw [hn]
    rfl

/-- An assignment has the range of its target and its value. -/
lemma assignment?_range {target value t : NumberedTree} {op : Token}
    (h : assignment? target op value = some t) :
    t.range = bounding [target.range, value.range] := by
  unfold assignment? at h
  split at h <;> cases h <;> rfl

end BrighterCheck
