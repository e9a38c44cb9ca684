import BrighterCheck.Proofs.Tree.Located
import BrighterCheck.Proofs.Tree.Numbering

/-!
# Stored trees

The rows that reading leaves are the trees that were read: the row of a node says what the node is,
and the rows of its children name it as their parent. Both are side effects of making and rewriting
nodes. For each of these one lemma says which rows it touches; one induction over what is read puts
them together.
-/

namespace BrighterCheck

open BrighterCheck.Parser Item Reading

namespace Store

variable {a b : Store} {t u : NumberedTree} {ts us : List NumberedTree}

/-- What the node with the number `n` is, and the range that it covers. -/
def content? (a : Store) (n : Nat) : Option (Form Nat × Option Range) :=
  a[n]?.map fun row => (row.form, row.range)

/-- The parent link of the node with the number `n`. -/
def link? (a : Store) (n : Nat) : Option (Option Nat) :=
  a[n]?.map Row.parent

lemma content?_setParent (a : Store) (p c n : Nat) :
    (a.setParent p c).content? n = a.content? n := by
  rw [content?, setParent, Array.getElem?_modify]
  split <;> simp [content?, Function.comp_def]

lemma link?_setParent (a : Store) (p c n : Nat) :
    (a.setParent p c).link? n = if c = n then (a.link? n).map fun _ => some p else a.link? n := by
  rw [link?, setParent, Array.getElem?_modify]
  split <;> simp [link?, Function.comp_def]

lemma content?_adopt (a : Store) (p n : Nat) (cs : List Nat) :
    (a.adopt p cs).content? n = a.content? n := by
  induction cs generalizing a with
  | nil => rfl
  | cons c cs ih => exact (ih _).trans (content?_setParent ..)

/-- Adopted rows get the link, whatever they had before. -/
lemma link?_adopt (a : Store) (p n : Nat) (cs : List Nat) :
    (a.adopt p cs).link? n = if n ∈ cs then (a.link? n).map fun _ => some p else a.link? n := by
  induction cs generalizing a with
  | nil => rfl
  | cons c cs ih =>
    refine (ih (a.setParent p c)).trans ?_
    rw [link?_setParent]
    by_cases hc : c = n
    · simp [hc, Function.comp_def]
    · simp [hc, Ne.symm hc]

lemma content?_alloc (a : Store) (form : Form Nat) (range : Option Range) (n : Nat) :
    (a.alloc form range).content? n = if n = a.size then some (form, range) else a.content? n := by
  rw [content?, alloc, Array.getElem?_push, size_adopt]
  split
  case isTrue => rfl
  case isFalse => exact content?_adopt ..

lemma link?_alloc (a : Store) (form : Form Nat) (range : Option Range) (n : Nat) :
    (a.alloc form range).link? n =
      if n = a.size then some none else (a.adopt a.size form.children).link? n := by
  rw [link?, alloc, Array.getElem?_push, size_adopt]
  split <;> rfl

lemma content?_replace (a : Store) (id n : Nat) (form : Form Nat) (range : Option Range) :
    (a.replace id form range).content? n =
      if id = n then (a.content? n).map fun _ => (form, range) else a.content? n := by
  rw [← content?_adopt a id n form.children, content?, replace, Array.getElem?_modify]
  split <;> simp [content?, Function.comp_def]

lemma link?_replace (a : Store) (id n : Nat) (form : Form Nat) (range : Option Range) :
    (a.replace id form range).link? n = (a.adopt id form.children).link? n := by
  rw [link?, replace, Array.getElem?_modify]
  split <;> simp [link?, Function.comp_def]

lemma content?_extend (a : Store) (id n : Nat) (range : Range) :
    (a.extend id range).content? n =
      if id = n then (a.content? n).map fun c => (c.1, Range.bounding [c.2, some range])
      else a.content? n := by
  rw [content?, extend, Array.getElem?_modify]
  split <;> simp [content?, Function.comp_def]

lemma link?_extend (a : Store) (id n : Nat) (range : Range) :
    (a.extend id range).link? n = a.link? n := by
  rw [link?, extend, Array.getElem?_modify]
  split <;> simp [link?, Function.comp_def]

/-- A node that is there has a parent link. -/
lemma exists_link? {n : Nat} {c : Form Nat × Option Range} (h : a.content? n = some c) :
    ∃ p, a.link? n = some p := by
  obtain ⟨row, hrow, -⟩ := Option.map_eq_some_iff.1 h
  exact ⟨row.parent, congrArg (Option.map Row.parent) hrow⟩

/-- The rows below `n` are the same in both. -/
structure Keeps (a b : Store) (n : Nat) : Prop where
  content : ∀ m < n, b.content? m = a.content? m
  link : ∀ m < n, b.link? m = a.link? m

/-- The row of the node `u` says what it is, and its children name it as their parent. -/
structure Holds (a : Store) (u : NumberedTree) : Prop where
  content : ∃ form, a.content? u.id = some (form, u.range) ∧
    form.Has u.kind (u.children.map Tree.id)
  link : ∀ v ∈ u.children, a.link? v.id = some (some u.id)

/-- The rows are those of the trees `ts`, which have no parents yet. -/
structure Stores (a : Store) (ts : List NumberedTree) : Prop where
  holds : ∀ u ∈ Tree.preorderAll ts, a.Holds u
  top : ∀ t ∈ ts, a.link? t.id = some none

namespace Keeps

variable {c : Store} {n m : Nat}

lemma refl (a : Store) (n : Nat) : a.Keeps a n :=
  ⟨fun _ _ => rfl, fun _ _ => rfl⟩

lemma trans (h : a.Keeps b n) (h' : b.Keeps c m) (hm : n ≤ m) : a.Keeps c n where
  content k hk := (h'.content k (hk.trans_le hm)).trans (h.content k hk)
  link k hk := (h'.link k (hk.trans_le hm)).trans (h.link k hk)

/-- A new node changes nothing in front of its children. -/
lemma alloc {form : Form Nat} {range : Option Range} (hn : n ≤ a.size)
    (hc : ∀ c ∈ form.children, n ≤ c) : a.Keeps (a.alloc form range) n where
  content k hk := by
    rw [content?_alloc, if_neg (by omega)]
  link k hk := by
    rw [link?_alloc, if_neg (by omega), link?_adopt, if_neg]
    exact fun hmem => Nat.not_le_of_lt hk (hc k hmem)

/-- A node that is rewritten changes nothing in front of it and of its children. -/
lemma replace {id : Nat} {form : Form Nat} {range : Option Range} (hn : n ≤ id)
    (hc : ∀ c ∈ form.children, n ≤ c) : a.Keeps (a.replace id form range) n where
  content k hk := by
    rw [content?_replace, if_neg (by omega)]
  link k hk := by
    rw [link?_replace, link?_adopt, if_neg]
    exact fun hmem => Nat.not_le_of_lt hk (hc k hmem)

lemma extend {id : Nat} {range : Range} (hn : n ≤ id) : a.Keeps (a.extend id range) n where
  content k hk := by
    rw [content?_extend, if_neg (by omega)]
  link k _ := link?_extend ..

end Keeps

/-- A node is held where its row and those of its children are the same. -/
lemma Holds.congr (h : a.Holds u) (hu : b.content? u.id = a.content? u.id)
    (hc : ∀ v ∈ u.children, b.link? v.id = a.link? v.id) : b.Holds u where
  content := hu ▸ h.content
  link v hv := (hc v hv).trans (h.link v hv)

end Store

/-- No node below the root has the number of the root. -/
lemma Tree.id_below_ne {t v : NumberedTree} (hn : (t.preorder.map Tree.id).Nodup)
    (hv : v ∈ preorderAll t.children) : v.id ≠ t.id := by
  obtain ⟨id, kind, range, children⟩ := t
  intro hid
  exact (List.nodup_cons.1 hn).1 (hid ▸ List.mem_map_of_mem hv)

/-- No child of a node below the root is one of the children of the root. -/
lemma Tree.id_child_ne {t u v w : NumberedTree} (hn : (t.preorder.map Tree.id).Nodup)
    (hu : u ∈ preorderAll t.children) (hv : v ∈ u.children) (hw : w ∈ t.children) :
    v.id ≠ w.id := by
  intro hid
  obtain ⟨⟨_, above⟩, hl, rfl⟩ := mem_preorder_iff_located.1 (mem_preorder.2 (.inr hu))
  -- Both would stand in the same place, so that the parents are the same
  cases eq_of_mem_located hn (child_mem_located hl hv) (child_mem_located root_mem_located hw) hid
  exact id_below_ne hn hu rfl

namespace Store

variable {a b : Store} {t u : NumberedTree} {ts us : List NumberedTree}

lemma Stores.keep {n : Nat} (h : a.Stores ts) (hk : a.Keeps b n)
    (hts : ∀ u ∈ Tree.preorderAll ts, u.id < n) : b.Stores ts where
  holds u hu := by
    refine (h.holds u hu).congr (hk.content _ (hts u hu)) fun v hv => ?_
    exact hk.link _ (hts v (Tree.child_mem_preorderAll hu hv))
  top t ht := by
    rw [hk.link _ (hts t (Tree.mem_preorderAll_of_mem ht))]
    exact h.top t ht

/-- A node above its children: its own row is written, and they are adopted. -/
lemma Stores.above (hn : (t.preorder.map Tree.id).Nodup)
    (h : ∀ u ∈ Tree.preorderAll t.children, a.Holds u)
    (ht : ∃ form, b.content? t.id = some (form, t.range) ∧
      form.Has t.kind (t.children.map Tree.id))
    (htop : b.link? t.id = some none) (hcontent : ∀ m ≠ t.id, b.content? m = a.content? m)
    (hlink : ∀ m ≠ t.id, b.link? m = (a.adopt t.id (t.children.map Tree.id)).link? m) :
    b.Stores [t] := by
  have hne {v : NumberedTree} (hv : v ∈ Tree.preorderAll t.children) : v.id ≠ t.id :=
    Tree.id_below_ne hn hv
  refine ⟨fun u hu => ?_, fun u hu => ?_⟩
  · rw [Tree.preorderAll_singleton] at hu
    rcases Tree.mem_preorder.1 hu with rfl | hu
    · refine ⟨ht, fun v hv => ?_⟩
      obtain ⟨_, hv', -⟩ := (h v (Tree.mem_preorderAll_of_mem hv)).content
      obtain ⟨p, hp⟩ := exists_link? hv'
      rw [hlink _ (hne (Tree.mem_preorderAll_of_mem hv)), link?_adopt,
        if_pos (List.mem_map_of_mem hv), hp]
      rfl
    · refine (h u hu).congr (hcontent _ (hne hu)) fun v hv => ?_
      rw [hlink _ (hne (Tree.child_mem_preorderAll hu hv)), link?_adopt, if_neg]
      intro hmem
      obtain ⟨w, hw, hid⟩ := List.mem_map.1 hmem
      exact Tree.id_child_ne hn hu hv hw hid.symm
  · cases List.mem_singleton.1 hu
    exact htop

/-- A new node above some trees, which have the numbers right before it. -/
lemma Stores.alloc {form : Form Nat} {range : Option Range} {kind : NodeKind}
    (h : a.Stores ts) (hform : form.Has kind (ts.map Tree.id))
    (hn : ((⟨a.size, kind, range, ts⟩ : NumberedTree).preorder.map Tree.id).Nodup) :
    (a.alloc form range).Stores [⟨a.size, kind, range, ts⟩] := by
  refine .above hn h.holds ⟨form, ?_, hform⟩ ?_ (fun m hm => ?_) fun m hm => ?_
  · rw [content?_alloc, if_pos rfl]
  · rw [link?_alloc, if_pos rfl]
  · rw [content?_alloc, if_neg hm]
  · rw [link?_alloc, if_neg hm, hform.children_eq]

/-- A node that is rewritten as one above some trees. -/
lemma Stores.replace {form : Form Nat} (hform : form.Has t.kind (t.children.map Tree.id))
    (hn : (t.preorder.map Tree.id).Nodup) (h : ∀ u ∈ Tree.preorderAll t.children, a.Holds u)
    {c : Form Nat × Option Range} (hc : a.content? t.id = some c)
    (htop : a.link? t.id = some none) :
    (a.replace t.id form t.range).Stores [t] := by
  refine .above hn h ⟨form, ?_, hform⟩ ?_ (fun m hm => ?_) fun m _ => ?_
  · rw [content?_replace, if_pos rfl, hc]
    rfl
  · rw [link?_replace, link?_adopt, if_neg, htop]
    rw [hform.children_eq]
    intro hmem
    obtain ⟨v, hv, hid⟩ := List.mem_map.1 hmem
    exact Tree.id_below_ne hn (Tree.mem_preorderAll_of_mem hv) hid
  · rw [content?_replace, if_neg (Ne.symm hm)]
  · rw [link?_replace, hform.children_eq]

/-- A node that grows. -/
lemma Stores.extend (h : a.Stores [t]) (hn : (t.preorder.map Tree.id).Nodup) (r : Range) :
    (a.extend t.id r).Stores [t.extend r] := by
  have hlink (n : Nat) : (a.extend t.id r).link? n = a.link? n := link?_extend ..
  have hmem {u : NumberedTree} (hu : u ∈ t.preorder) : u ∈ Tree.preorderAll [t] :=
    t.preorderAll_singleton ▸ hu
  refine ⟨fun u hu => ?_, fun u hu => ?_⟩
  · rw [Tree.preorderAll_singleton] at hu
    rcases Tree.mem_preorder.1 hu with rfl | hu
    · obtain ⟨⟨form, hform, hhas⟩, hchildren⟩ := h.holds t (hmem t.self_mem_preorder)
      refine ⟨⟨form, ?_, hhas⟩, fun v hv => (hlink _).trans (hchildren v hv)⟩
      show (a.extend t.id r).content? t.id = _
      rw [content?_extend, if_pos rfl, hform]
      rfl
    · refine (h.holds u (hmem (Tree.mem_preorder.2 (.inr hu)))).congr ?_ fun v _ => hlink _
      rw [content?_extend, if_neg (Ne.symm (Tree.id_below_ne hn hu))]
  · cases List.mem_singleton.1 hu
    exact (hlink _).trans (h.top t (.head _))

lemma Stores.append (h : a.Stores ts) (h' : a.Stores us) : a.Stores (ts ++ us) where
  holds u hu := by
    rw [Tree.preorderAll_append] at hu
    exact (List.mem_append.1 hu).elim (h.holds u) (h'.holds u)
  top t ht := (List.mem_append.1 ht).elim (h.top t) (h'.top t)

end Store

/-- The numbers in a tree are different. -/
lemma Numbered.nodup {n m : Nat} {t : NumberedTree} (h : Numbered n [t] m) :
    (t.preorder.map Tree.id).Nodup := by
  have hperm := h.perm
  rw [Tree.preorderAll_singleton] at hperm
  exact hperm.nodup_iff.2 (List.nodup_range' ..)

/-- They lie between those of what is in front and of what is behind. -/
lemma Numbered.id_mem {n m : Nat} {ts : List NumberedTree} (h : Numbered n ts m)
    {u : NumberedTree} (hu : u ∈ Tree.preorderAll ts) : n ≤ u.id ∧ u.id < m := by
  have hmem := h.perm.mem_iff.1 (List.mem_map_of_mem hu)
  have hle := h.le
  rw [List.mem_range'_1] at hmem
  omega

/-- What assigns to a stored target is the row that assigns to it. -/
lemma Form.exists_assign? {form : Form Nat} {target value t : NumberedTree} {op : Token}
    (hform : form.Has target.kind (target.children.map Tree.id))
    (ha : assignment? target op value = some t) :
    ∃ form', form.assign? op value.id = some form' ∧
      form'.Has t.kind (t.children.map Tree.id) := by
  obtain ⟨hkind, hchildren⟩ := hform
  unfold assignment? at ha
  split at ha
  case h_1 name hk =>
    cases ha
    rw [hk] at hkind
    cases form <;> cases hkind
    exact ⟨_, rfl, rfl, rfl⟩
  case h_2 dot name hk =>
    cases ha
    rw [hk] at hkind
    cases form <;> cases hkind
    exact ⟨_, rfl, rfl, by simp [← hchildren, Form.children]⟩
  case h_3 question opening close hk =>
    cases ha
    rw [hk] at hkind
    cases form <;> cases hkind
    exact ⟨_, rfl, rfl, by simp [← hchildren, Form.children]⟩
  case h_4 => cases ha

/-- A new node takes the number behind those of its items. -/
lemma Numbered.allocate {u : Reading} {n : Nat} {ts : List NumberedTree} {kind : NodeKind}
    {form : Form NumberedTree} {range : Option Range} (h : Numbered n ts u.next) :
    Numbered n [⟨u.next, kind, range, ts⟩] (u.allocate form range).next := by
  rw [next_allocate]
  exact .node h (.nil _)

/-- What stands between two readings is stored in the second one, behind what was there before. -/
structure Reading.Stores (s s' : Reading) (ts : List NumberedTree) : Prop where
  keeps : s.store.Keeps s'.store s.next
  stores : s'.store.Stores ts

namespace Reading.Stores

variable {s u v s' : Reading} {ts us : List NumberedTree}

lemma nil (s : Reading) : s.Stores s [] :=
  ⟨.refl _ _, nofun, nofun⟩

/-- Later nodes leave those before them alone. -/
lemma append (h : s.Stores u ts) (hn : Numbered s.next ts u.next) (h' : u.Stores s' us) :
    s.Stores s' (ts ++ us) where
  keeps := h.keeps.trans h'.keeps hn.le
  stores := (h.stores.keep h'.keeps fun _ ht => (hn.id_mem ht).2).append h'.stores

/-- The items of a node become the node. -/
lemma allocate {kind : NodeKind} {range : Option Range} {form : Form NumberedTree}
    (h : s.Stores u ts) (hn : Numbered s.next ts u.next) (hform : form.Has kind ts) :
    s.Stores (u.allocate form range) [⟨u.next, kind, range, ts⟩] := by
  have hids : (form.map Tree.id).Has kind (ts.map Tree.id) := by
    constructor
    · rw [Form.kind_map, hform.kind_eq]
    · rw [Form.children_map, hform.children_eq]
  have hnode : Numbered s.next [⟨u.next, kind, range, ts⟩] (u.next + 1) := .node hn (.nil _)
  refine ⟨h.keeps.trans (.alloc hn.le fun c hc => ?_) le_rfl,
    h.stores.alloc hids hnode.nodup⟩
  rw [hids.children_eq] at hc
  obtain ⟨t, ht, rfl⟩ := List.mem_map.1 hc
  exact (hn.id_mem (Tree.mem_preorderAll_of_mem ht)).1

/-- A node grows. -/
lemma grow {t : NumberedTree} {m : Nat} (h : s.Stores u [t]) (hn : Numbered s.next [t] m)
    (r : Range) : s.Stores (u.grow t.id r) [t.extend r] where
  keeps := h.keeps.trans (.extend (hn.id_mem (Tree.mem_preorderAll_of_mem (.head _))).1) le_rfl
  stores := h.stores.extend hn.nodup r

/-- A target and a value become an assignment. -/
lemma reassign {target value t : NumberedTree} {op : Token} {m : Nat}
    (h : s.Stores v [target, value])
    (hname : ∀ name, target.kind = .name name → target.children = [])
    (ha : assignment? target op value = some t) (hn : Numbered s.next [t] m) :
    s.Stores (v.reassign target op value t.range) [t] := by
  obtain ⟨-, -, hid, hchildren⟩ := assignment?_inv hname ha
  obtain ⟨⟨form, hrow, hhas⟩, -⟩ := h.stores.holds target (Tree.mem_preorderAll_of_mem (.head _))
  obtain ⟨form', hassign, hform⟩ := Form.exists_assign? hhas ha
  have hstore : (v.reassign target op value t.range).store =
      v.store.replace t.id form' t.range := by
    obtain ⟨row, hget, he⟩ := Option.map_eq_some_iff.1 hrow
    have hrowform : row.form = form := congrArg Prod.fst he
    show Store.assign v.store target.id op value.id t.range = _
    rw [Store.assign, hget, Option.bind_some, hrowform, hassign, hid]
  have hbelow : ∀ u ∈ Tree.preorderAll t.children, v.store.Holds u := by
    intro u hu
    rw [hchildren, Tree.preorderAll_append] at hu
    refine h.stores.holds u ?_
    obtain ⟨id, kind, range, children⟩ := target
    simp only [Tree.preorderAll, Tree.preorder, List.mem_append, List.mem_cons] at hu ⊢
    tauto
  have hge {u : NumberedTree} (hu : u ∈ Tree.preorderAll [t]) : s.next ≤ u.id := (hn.id_mem hu).1
  constructor
  · have hself := hge (Tree.mem_preorderAll_of_mem (.head _))
    rw [hstore]
    refine h.keeps.trans (.replace hself fun c hc => ?_) le_rfl
    rw [hform.children_eq] at hc
    obtain ⟨u, hu, rfl⟩ := List.mem_map.1 hc
    exact hge (Tree.child_mem_preorderAll (Tree.mem_preorderAll_of_mem (.head _)) hu)
  · rw [hstore]
    refine .replace hform hn.nodup hbelow (hid ▸ hrow) ?_
    rw [hid]
    exact h.stores.top target (.head _)

end Reading.Stores

/-- Reading leaves the rows of the nodes that are read, and no others. -/
theorem Reads.stores {s s' : Reading} {items : List Item} (h : Reads s items s') :
    s.Stores s' (nodes items) := by
  induction h with
  | nil s => exact .nil s
  | token _ _ _ ih => exact ⟨ih.keeps, ih.stores⟩
  | node hi _ hform _ ihi ih =>
    exact (ihi.allocate hi.numbered hform).append hi.numbered.allocate ih
  | @assignment s u v s' target value t op items ht ho hv ha _ iht ihv ih =>
    have hname (name : Token) : target.kind = .name name → target.children = [] := ht.children_name
    have hn := assignment?_numbered hname ha ht.numbered hv.numbered
    have hstores := (iht.append ht.numbered ihv).reassign hname ha hn
    refine hstores.append ?_ ih
    rwa [next_reassign]
  | inline hi _ hform _ ihi ih =>
    exact (ihi.allocate hi.numbered hform).append hi.numbered.allocate ih
  | close hi _ _ hform he _ _ ihi ihe ih =>
    have hnone := he.numbered
    rw [nodes_tokens] at ihe hnone
    have hnode := (ihi.allocate hi.numbered hform).append hi.numbered.allocate ihe
    refine (hnode.grow (.node hi.numbered (.nil _)) _).append ?_ ih
    rw [next_grow, ← hnone.of_nil, next_allocate]
    exact .node hi.numbered (.nil _)

/-- The rows that are left when a file was read are those of its tree. -/
theorem ParsedFile.stores_tree {source : String} {f : ParsedFile} (h : ofSource source = .ok f) :
    f.store.Stores [f.tree] := by
  obtain ⟨-, items, rest, hm⟩ := made_of_ofSource h
  have hrows := hm.reads.stores
  have hn : Numbered 1 (nodes items) rest.next := hm.reads.numbered
  have hnodup : (f.tree.preorder.map Tree.id).Nodup :=
    (perm_ids h).nodup_iff.2 List.nodup_range
  have hcontent := hrows.keeps.content 0 Nat.zero_lt_one
  have hlink := hrows.keeps.link 0 Nat.zero_lt_one
  rw [hm.tree_eq] at hnodup ⊢
  rw [hm.store_eq]
  -- The row of the root was there from the start, without statements
  exact Store.Stores.replace (t := root (nodes items)) ⟨rfl, rfl⟩ hnodup hrows.stores.holds
    hcontent hlink

end BrighterCheck
