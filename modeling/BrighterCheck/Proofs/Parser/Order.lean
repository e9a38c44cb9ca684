import BrighterCheck.Proofs.Parser.Extent

/-!
# The order of productions

The items of a node stand behind one another, so its range lies between their ends, and it covers
its children as soon as it covers its first and its last item. There is one exception: an arm of
conditional compilation does not count its condition.
-/

namespace BrighterCheck

open BrighterCheck.Parser Item Range

variable {p q : Position} {r s : Range}

namespace Item

/-- The ranges of the items that have one. -/
def ranges (items : List Item) : List Range :=
  items.filterMap range

@[simp] lemma ranges_nil : ranges [] = [] := rfl

@[simp] lemma ranges_token (t : Token) (items : List Item) :
    ranges (.token t :: items) = t.range :: ranges items := rfl

lemma ranges_cons (i : Item) (items : List Item) :
    ranges (i :: items) = i.range.toList ++ ranges items := by
  cases h : i.range <;> simp [ranges, h]

@[simp] lemma ranges_append (xs ys : List Item) : ranges (xs ++ ys) = ranges xs ++ ranges ys :=
  List.filterMap_append

lemma mem_ranges {items : List Item} : r ∈ ranges items ↔ ∃ i ∈ items, i.range = some r :=
  List.mem_filterMap

/-- The range of a node among the items. -/
lemma mem_ranges_of_nodes {items : List Item} {t : NumberedTree} (ht : t ∈ nodes items)
    (hr : t.range = some r) : r ∈ ranges items := by
  obtain ⟨c, hi⟩ := mem_nodes.1 ht
  exact mem_ranges.2 ⟨_, hi, hr⟩

end Item

/-- The range of the words that end a block covers one of them and lies where they lie. -/
lemma Finish.covers {e : Ending} {ends : List Token} (h : Finish e ends r) :
    ∃ t ∈ ends, r.Covers t.range := by
  cases h with
  | one => exact ⟨_, .head _, .refl _⟩
  | two => exact ⟨_, .head _, covers_merge_left _ _⟩

/-- Where a node lies that was read in the place of a category. -/
structure Placed (c : Category) (p : Position) (t : NumberedTree) (q : Position) : Prop where
  within : ∀ r ∈ t.range, Within p r q
  /-- Bodies without statements, and no other nodes, have no range. -/
  empty : t.range = none ↔ c = .body ∧ t.children = []
  /-- The call of a constructor ends with its closing token. -/
  closes : ∀ close, c = .construction close →
    Within p close.range q ∧ ∀ r ∈ t.range, r.finish ≤ close.range.finish
  /-- An arm has a condition at least. -/
  nonempty : ∀ form word, c = .arm form word → t.children ≠ []

/-- Every node that has a range and is not a body has one for sure. -/
lemma Placed.exists_range {c : Category} {t : NumberedTree} (h : Placed c p t q) (hc : c ≠ .body) :
    ∃ r, t.range = some r :=
  Option.ne_none_iff_exists'.1 fun hn => hc (h.empty.1 hn).1

/-- A range covers all nodes among the items. -/
def Encloses (range : Option Range) (items : List Item) : Prop :=
  ∀ r ∈ range, ∀ t ∈ nodes items, ∀ s ∈ t.range, r.Covers s

/-- A bounding range covers what it was made from. -/
lemma encloses_bounding {rs : List (Option Range)} {items : List Item}
    (h : ∀ t ∈ nodes items, t.range ∈ rs) : Encloses (bounding rs) items :=
  fun _ hr _ ht _ hs => bounding_covers hr (hs ▸ h _ ht)

lemma encloses_of_nodes_eq_nil {range : Option Range} {items : List Item} (h : nodes items = []) :
    Encloses range items :=
  fun _ _ _ ht => absurd (h ▸ ht) List.not_mem_nil

/-- A range that covers the first item and one of the last covers everything between them. -/
lemma encloses_of_ends {items : List Item} {k : Range} (first : Item) (inside : List Item)
    (ends : List Token) (hitems : items = first :: (inside ++ tokens ends))
    (hb : Between p (ranges items) q) (hk : first.range = some k) (hr : r.Covers k)
    (he : ∃ t ∈ ends, r.Covers t.range) : Encloses (some r) items := by
  subst hitems
  rintro _ ⟨⟩ t ht s hs
  obtain ⟨last, hlast, he⟩ := he
  rw [ranges_cons, hk, ranges_append] at hb
  -- The tokens at the end are no nodes, so the node stands before the last one.
  have hmem : s ∈ k :: ranges inside := by
    have hts : t ∈ nodes (first :: inside) := by
      rw [← List.cons_append, nodes_append, nodes_tokens, List.append_nil] at ht
      exact ht
    simpa [ranges_cons, hk] using mem_ranges_of_nodes hts hs
  have hend : last.range ∈ ranges (tokens ends) :=
    mem_ranges.2 ⟨.token last, List.mem_map_of_mem hlast, rfl⟩
  have hb : Between p ((k :: ranges inside) ++ ranges (tokens ends)) q := hb
  constructor
  · exact hr.1.trans (hb.start_le s (List.mem_append_left _ hmem))
  · exact (hb.finish_le hmem hend).trans he.2

/-- A range from the first item to one of the last covers everything between them. -/
lemma encloses_frame {items : List Item} {k e : Range} (first : Item) (inside : List Item)
    (ends : List Token) (hitems : items = first :: (inside ++ tokens ends))
    (hb : Between p (ranges items) q) (hk : first.range = some k)
    (he : ∃ t ∈ ends, e.Covers t.range) : Encloses (some (k.merge e)) items :=
  encloses_of_ends first inside ends hitems hb hk (covers_merge_left k e)
    (he.imp fun _ h => ⟨h.1, (covers_merge_right k e).trans h.2⟩)

/-- The same for a single token at the end. -/
lemma encloses_brackets {items : List Item} {k : Range} (first : Item) (inside : List Item)
    (close : Token) (hitems : items = first :: (inside ++ [.token close]))
    (hb : Between p (ranges items) q) (hk : first.range = some k) :
    Encloses (some (k.merge close.range)) items :=
  encloses_frame first inside [close] hitems hb hk ⟨close, .head _, .refl _⟩

lemma Others.nodes_eq {form : ArmForm} {other : Option NumberedTree} {others : List Item}
    (h : Others form other others) : nodes others = other.toList := by
  cases h <;> rfl

/-- A range that covers the keyword of an arm and something behind its condition covers that too. -/
lemma covers_condition {k : Token} {condition : NumberedTree} {rest : List Item} {c : Range}
    (hb : Between p (ranges (.token k :: .node .expression condition :: rest)) q)
    (hc : condition.range = some c) (hk : r.Covers k.range) (hs : s ∈ ranges rest)
    (hr : r.Covers s) : r.Covers c := by
  have hb : Between p ([k.range, c] ++ ranges rest) q := by
    simpa [ranges_cons, Item.range, hc] using hb
  constructor
  · exact hk.1.trans (hb.start_le c (.tail _ (.head _)))
  · exact (hb.finish_le (.tail _ (.head _)) hs).trans hr.2

/-- The range of a branch or of what follows it reaches back over the condition. -/
lemma encloses_arm {form : ArmForm} {k : Token} {condition b : NumberedTree} {thens : List Token}
    {other : Option NumberedTree} {others : List Item} (ho : Others form other others)
    (hb : Between p (ranges (.token k :: .node .expression condition :: tokens thens ++
      .node .body b :: others)) q)
    (hs : b.range = some s ∨ other.bind Tree.range = some s) :
    Encloses (bounding [some k.range, b.range, other.bind Tree.range])
      (.token k :: .node .expression condition :: tokens thens ++ .node .body b :: others) := by
  intro r hr t ht c hc
  simp only [nodes_append, nodes_token, nodes_node, nodes_tokens, List.nil_append,
    List.cons_append, ho.nodes_eq, List.mem_cons, Option.mem_toList] at ht
  rcases ht with rfl | rfl | rfl
  · have hmem : s ∈ ranges (tokens thens ++ .node .body b :: others) := by
      have hlast : s ∈ ranges (.node .body b :: others) := by
        rcases hs with hs | hs
        · exact mem_ranges_of_nodes (.head _) hs
        · obtain ⟨u, rfl, hu⟩ := Option.bind_eq_some_iff.1 hs
          exact mem_ranges_of_nodes (by simp [ho.nodes_eq]) hu
      rw [ranges_append]
      exact List.mem_append_right _ hlast
    exact covers_condition hb hc (bounding_covers hr (.head _)) hmem
      (bounding_covers hr (by rcases hs with hs | hs <;> simp [hs]))
  · exact bounding_covers hr (hc ▸ .tail _ (.head _))
  · exact bounding_covers hr (hc ▸ .tail _ (.tail _ (.head _)))

/-- Every production but an arm of conditional compilation encloses its nodes. -/
theorem Production.encloses {c : Category} {kind : NodeKind} {range : Option Range}
    {items : List Item} (h : Production c kind range items) (hc : ∀ word, c ≠ .arm .compile word)
    (hb : Between p (ranges items) q) (hp : ∀ c t, .node c t ∈ items → Placed c p t q) :
    Encloses range items := by
  cases h with
  | body => exact encloses_bounding fun t ht => List.mem_map_of_mem ht
  | print => exact encloses_bounding fun t ht => .tail _ (List.mem_map_of_mem ht)
  | comment | extended | single | literal | name =>
    exact encloses_of_nodes_eq_nil (by simp)
  | interfaceField _ ht => cases ht <;> exact encloses_of_nodes_eq_nil rfl
  | interfaceMethod _ _ _ _ ht => cases ht <;> exact encloses_of_nodes_eq_nil (by simp)
  | counter | increment | throwStatement | catchClause | named | method | unary | binary
  | dottedGet | recordMember =>
    exact encloses_bounding (by simp)
  | @returnStatement k value => cases value <;> exact encloses_bounding (by simp)
  | field _ _ _ ht hv => cases ht <;> cases hv <;> exact encloses_bounding (by simp)
  | enumMember _ hv => cases hv <;> exact encloses_bounding (by simp)
  | parameter _ hv ht => cases hv <;> cases ht <;> exact encloses_bounding (by simp)
  | expressionStatement | function =>
    rintro r hr t ht s hs
    cases List.mem_singleton.1 ht
    cases hr.symm.trans hs
    exact .refl _
  | @arm form k condition thens b other others ht hi ho =>
    cases form with
    | compile => exact absurd rfl (hc _)
    | block => cases ho <;> exact encloses_bounding (by simp)
    | inline =>
      -- A branch on one line has statements, so that it has a range.
      have hbody := hp .body b (by simp)
      obtain ⟨s, hs⟩ : ∃ s, b.range = some s :=
        Option.ne_none_iff_exists'.1 fun hn => hi rfl (hbody.empty.1 hn).2
      exact encloses_arm (s := s) ho hb (.inl hs)
  | @whileLoop k condition b ends r hk he =>
    exact encloses_frame _ [.node .expression condition, .node .body b] _ rfl hb rfl he.covers
  | @forLoop k i mark f step steps b ends r hk hm hs he =>
    exact encloses_frame (.token k) (.node .counter i :: .token mark :: .node .expression f ::
      (steps ++ [.node .body b])) _ (by simp) hb rfl he.covers
  | @forEachLoop k item mark target b ends r hk hi hm he =>
    exact encloses_frame _ [.token item, .token mark, .node .expression target, .node .body b] _
      rfl hb rfl he.covers
  | @tryStatement k b ends r clause hk he =>
    exact encloses_frame _ (.node .body b :: clause.toList.map (.node .clause)) _ rfl hb rfl
      he.covers
  | @namespaceDeclaration k name b ends r hk _ he =>
    exact encloses_frame _ [.node .expression name, .node .body b] _ rfl hb rfl he.covers
  | @classDeclaration k name parent parents inside ends r hk hn ht hl he
  | @interfaceDeclaration k name parent parents inside ends r hk hn ht hl he =>
    exact encloses_frame (.token k) (.token name :: (parents ++ inside)) _ (by simp) hb rfl
      he.covers
  | @enumDeclaration k name inside ends r hk hn hl he =>
    exact encloses_frame _ (.token name :: inside) _ rfl hb rfl he.covers
  | @functionExpression _ k opening inside close returns types b ends r name _ _ _ _ _ _ _ he =>
    exact encloses_frame (.token k) (tokens name.toList ++ .token opening :: (inside ++
      .token close :: (types ++ [.node .body b]))) _ (by simp) hb rfl he.covers
  | @dim k name opening inside close =>
    exact encloses_brackets _ (.token name :: .token opening :: inside) _ rfl hb rfl
  | @typecast k v mark type =>
    exact encloses_brackets _ [.node .expression v, .token mark] _ rfl hb rfl
  | @grouping opening before v behind close =>
    exact encloses_brackets (.token opening) (tokens before ++ .node .expression v :: tokens behind)
      _ (by simp) hb rfl
  | @array opening inside close | @record opening inside close =>
    exact encloses_brackets _ inside _ rfl hb rfl
  | @indexedGet object question opening inside close =>
    obtain ⟨k, hk⟩ := (hp .expression object (.head _)).exists_range (by nofun)
    rw [hk]
    exact encloses_brackets (.node .expression object)
      (tokens question.toList ++ .token opening :: inside) _ (by simp) hb hk
  | @call _ callee opening inside close =>
    obtain ⟨k, hk⟩ := (hp .expression callee (.head _)).exists_range (by nofun)
    rw [hk]
    exact encloses_brackets _ (.token opening :: inside) _ rfl hb hk
  | @callfunc callee op method opening inside close =>
    obtain ⟨k, hk⟩ := (hp .expression callee (.head _)).exists_range (by nofun)
    rw [hk]
    exact encloses_brackets _ (.token op :: .token method :: .token opening :: inside) _ rfl hb hk
  | @new k call close =>
    -- The range ends with the closing token of the call, and so does the call.
    rintro _ ⟨⟩ t ht s hs
    cases List.mem_singleton.1 ht
    have hclose := ((hp _ call (.tail _ (.head _))).closes close rfl).2 s hs
    refine ⟨?_, hclose.trans (le_max_right _ _)⟩
    exact (min_le_left _ _).trans (hb.start_le s (mem_ranges_of_nodes ht hs))

lemma lieAll_of_between {items : List Item} (hb : Between p (ranges items) q) :
    LieAll (Within p · q) items :=
  fun i hi r hr => hb.within r (mem_ranges.2 ⟨i, hi, hr⟩)

/-- The call behind `new` ends with its closing token. -/
lemma Production.closes {kind : NodeKind} {range : Option Range} {items : List Item}
    {close : Token} (h : Production (.construction close) kind range items)
    (hb : Between p (ranges items) q) (hp : ∀ c t, .node c t ∈ items → Placed c p t q) :
    Within p close.range q ∧ ∀ r ∈ range, r.finish ≤ close.range.finish := by
  obtain ⟨callee, opening, inside, rfl, rfl⟩ := h.construction_inv
  obtain ⟨k, hk⟩ := (hp .expression callee (.head _)).exists_range (by nofun)
  have hlast : close.range ∈ ranges [.token close] := .head _
  refine ⟨?_, ?_⟩
  · refine hb.within _ ?_
    simp [ranges_cons]
  · rw [hk]
    rintro _ ⟨⟩
    have hcallee : k ∈ ranges (.node .expression callee :: .token opening :: inside) := by
      simp [ranges_cons, hk]
    rw [← List.cons_append, ← List.cons_append, ranges_append] at hb
    exact max_le (hb.finish_le hcallee hlast) (le_refl _)

/-- A node lies where its items lie. -/
theorem Production.placed {c : Category} {kind : NodeKind} {range : Option Range}
    {items : List Item} {id : Nat} (h : Production c kind range items)
    (hb : Between p (ranges items) q) (hp : ∀ c t, .node c t ∈ items → Placed c p t q) :
    Placed c p ⟨id, kind, range, nodes items⟩ q where
  within := h.lies (mergeClosed_within p q) (lieAll_of_between hb) fun close t ht =>
    ((hp _ t ht).closes close rfl).1
  empty := h.range_eq_none_iff fun c t ht hc hn => hc ((hp c t ht).empty.1 hn).1
  closes close hc := by
    subst hc
    exact h.closes hb hp
  nonempty form word hc := by
    subst hc
    obtain ⟨k, condition, b, thens, other, others, -, -, -, -, rfl⟩ := h.arm_inv
    simp

/-- What lies between two positions lies between any two around them. -/
lemma Placed.mono {c : Category} {t : NumberedTree} {p' q' : Position} (h : Placed c p t q)
    (hp : p' ≤ p) (hq : q ≤ q') : Placed c p' t q' where
  within r hr := (h.within r hr).mono hp hq
  empty := h.empty
  closes close hc := ⟨((h.closes close hc).1).mono hp hq, (h.closes close hc).2⟩
  nonempty := h.nonempty

/-- A node with a range can stand in the place of a statement. -/
lemma placed_statement {t : NumberedTree} (hr : t.range ≠ none)
    (hw : Lies (Within p · q) t.range) :
    Placed .statement p t q where
  within := hw
  empty := ⟨fun hn => absurd hn hr, nofun⟩
  closes := nofun
  nonempty := nofun

lemma Placed.statement {c : Category} {t : NumberedTree} (h : Placed c p t q) (hc : c ≠ .body) :
    Placed .statement p t q :=
  placed_statement (fun hn => hc (h.empty.1 hn).1) h.within

/-- The end of a node lies behind the node. -/
lemma Placed.extend {c : Category} {t : NumberedTree} (h : Placed c p t q) (hr : Within p r q) :
    Placed .statement p (t.extend r) q :=
  placed_statement (bounding_ne_none (.tail _ (.head _)))
    (lies_pair (mergeClosed_within p q) h.within (lies_some.2 hr))

/-- The items of a node and of the source behind it lie behind one another. -/
lemma between_node {t : NumberedTree} {m : Position} {items : List Item} (c : Category)
    (ht : Lies (Within p · m) t.range) (hm : p ≤ m) (hb : Between m (ranges items) q) :
    Between p (ranges (.node c t :: items)) q := by
  rw [ranges_cons]
  cases hr : (Item.node c t).range with
  | none => exact hb.mono_left hm
  | some r =>
    have hw : Within p r m := ht r hr
    exact .cons hw.le_start hw.start_lt (hb.mono_left hw.finish_le)

/-- A node and the items behind it lie behind one another. -/
lemma placed_cons {c : Category} {t : NumberedTree} {u m : Position} {items : List Item}
    {left : List Range} (ht : Placed c p t u) (hu : p ≤ u) (hi : Between u (ranges items) m)
    (hl : Between m left q) (hn : ∀ c t, .node c t ∈ items → Placed c u t m) :
    ∃ m, Between p (ranges (.node c t :: items)) m ∧ Between m left q ∧
      ∀ d v, .node d v ∈ .node c t :: items → Placed d p v m := by
  refine ⟨m, between_node c ht.within hu hi, hl, fun d v hv => ?_⟩
  cases hv with
  | head => exact ht.mono (le_refl p) hi.le
  | tail _ hv => exact (hn d v hv).mono hu (le_refl m)

/-- The tokens that are left at some place stand behind one another, as all tokens do. -/
lemma between_of_suffix {s : Reading} {tokens : List Token} (hs : s.tokens <:+ tokens)
    (hb : Between p (tokens.map Token.range) q) : ∃ m, Between m (s.tokens.map Token.range) q := by
  obtain ⟨before, rfl⟩ := hs
  rw [List.map_append] at hb
  obtain ⟨m, -, hb⟩ := hb.split
  exact ⟨m, hb⟩

/-- What is read stands between what was there before and what is left. -/
theorem Reads.placed {s s' : Reading} {items : List Item} (h : Reads s items s')
    (hb : Between p (s.tokens.map Token.range) q) :
    ∃ m, Between p (ranges items) m ∧ Between m (s'.tokens.map Token.range) q ∧
      ∀ c t, .node c t ∈ items → Placed c p t m := by
  induction h generalizing p with
  | nil => exact ⟨p, .nil (le_refl p), hb, nofun⟩
  | @token s s' raw ts t items hf hs _ ih =>
    rw [hs, List.map_append] at hb
    obtain ⟨u, hraw, hts⟩ := hb.split
    obtain ⟨m, hi, hrest, hn⟩ := ih hts
    have hw : Within p t.range u := hf.range (mergeClosed_within p u) hraw.within
    refine ⟨m, .cons hw.le_start hw.start_lt (hi.mono_left hw.finish_le), hrest, ?_⟩
    intro c t ht
    cases ht with
    | tail _ ht => exact (hn c t ht).mono hraw.le (le_refl m)
  | node _ hp _ _ ihi ih =>
    obtain ⟨u, hi, hrest, hn⟩ := ihi hb
    obtain ⟨m, hi', hrest', hn'⟩ := ih hrest
    exact placed_cons (hp.placed hi hn) hi.le hi' hrest' hn'
  | assignment _ _ _ ha _ iht ihv ih =>
    obtain ⟨u, hi, hrest, hn⟩ := iht hb
    obtain ⟨v, hi', hrest', hn'⟩ := ihv hrest
    obtain ⟨m, hi'', hrest'', hn''⟩ := ih hrest'
    have htarget := (hn _ _ (.head _)).mono (le_refl p) hi'.le
    have hvalue := (hn' _ _ (.tail _ (.head _))).mono hi.le (le_refl v)
    obtain ⟨r, hr⟩ := htarget.exists_range (by nofun)
    have hrange := assignment?_range ha
    rw [hr] at hrange
    have ht := placed_statement (hrange ▸ bounding_ne_none (.head _))
      (hrange ▸ lies_pair (mergeClosed_within p v) (hr ▸ htarget.within) hvalue.within)
    exact placed_cons ht (hi.le.trans hi'.le) hi'' hrest'' hn''
  | inline _ hp _ _ ihi ih =>
    obtain ⟨u, hi, hrest, hn⟩ := ihi hb
    obtain ⟨m, hi', hrest', hn'⟩ := ih hrest
    exact placed_cons ((hp.placed hi hn).statement nofun) hi.le hi' hrest' hn'
  | close _ hp _ _ _ hf _ ihi ihe ih =>
    obtain ⟨u, hi, hrest, hn⟩ := ihi hb
    obtain ⟨v, hends, hrest', -⟩ := ihe hrest
    obtain ⟨m, hi', hrest'', hn'⟩ := ih hrest'
    have hr := (hf.range (mergeClosed_within u v) (lieAll_of_between hends)).mono hi.le (le_refl v)
    exact placed_cons (((hp.placed hi hn).mono (le_refl p) hends.le).extend hr)
      (hi.le.trans hends.le) hi' hrest'' hn'

end BrighterCheck
