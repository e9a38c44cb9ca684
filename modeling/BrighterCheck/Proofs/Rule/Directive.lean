import BrighterCheck.Proofs.Rule.Origin
import BrighterCheck.Proofs.Symbol.Lookup
import BrighterCheck.Proofs.Tree.Order
import BrighterCheck.Proofs.Tree.Origin
import Mathlib.Data.List.TakeWhile

/-!
# Libraries and imports

While a file is read, the numbers of its libraries and imports are noted. As they have no children,
and no other node that is read is noted, the notes are those of the tree in pre-order, at whatever
depth they stand (`Reads.references_eq`), and this is the order of the source. The rule for their
place goes through the notes, and reports all but those that the file starts with.
-/

namespace BrighterCheck

open BrighterCheck.Parser Item Range

/-- What a file may start with: directives, and comments among them. -/
def NodeKind.isPreamble : NodeKind → Bool
  | .comment _ | .library .. | .importStatement .. => true
  | _ => false

/-- The numbers of the directives that a file starts with. -/
def Tree.leadingDirectives (t : NumberedTree) : List Nat :=
  (t.leadingStatements.filter fun s => s.kind.isDirective).map Tree.id

/-- Of some numbers of nodes, those that are not among the `first` ones are reported. -/
def Tree.notedFindings (t : NumberedTree) (first numbers : List Nat) (v : Violation) :
    List Finding :=
  (numbers.filter (· ∉ first)).map fun n => ⟨v, (t.find? n).bind fun l => l.node.range⟩

/--
The diagnostics `items` of the file `f`, whose number is `fileId`, about directives are those of its
libraries and imports that do not stand in the run of directives and comments that it starts with.
-/
structure ReportsDirectives (f : ParsedFile) (fileId : Nat) (items : List Diagnostic) : Prop where
  /-- The libraries of the tree were noted, at whatever depth they stand, in the same order. -/
  libraries : f.references.libraries = (f.nodesOf Tree.isLibrary).map Tree.id
  /-- So were the imports. -/
  imports : f.references.imports = (f.nodesOf Tree.isImport).map Tree.id
  /-- None of them was noted twice. -/
  nodup : (f.references.libraries ++ f.references.imports).Nodup
  /-- The order is that of the source, also between libraries and imports. -/
  ordered : (f.nodesOf NodeKind.isDirective).Pairwise fun t u =>
    ∃ r ∈ t.range, ∃ s ∈ u.range, r.finish ≤ s.start
  /-- The longest run of directives and comments at the start of the root is not reported. -/
  reported : ∃ leading rest, f.tree.children = leading ++ rest ∧
    (∀ t ∈ leading, t.kind.isPreamble = true) ∧ (∀ t ∈ rest.head?, t.kind.isPreamble = false) ∧
    items.filter (fun d => d.code = 1111 ∨ d.code = 1112) =
      ((f.nodesOf Tree.isLibrary).filter (·.id ∉ leading.map Tree.id)).map
          (fun t => Finding.diagnostic ⟨.misplacedLibrary, t.range⟩ fileId) ++
        ((f.nodesOf Tree.isImport).filter (·.id ∉ leading.map Tree.id)).map
          fun t => Finding.diagnostic ⟨.misplacedImport, t.range⟩ fileId
  /-- A rule that goes through the notes and looks up the ranges reports the same. -/
  noted : items.filter (fun d => d.code = 1111 ∨ d.code = 1112) =
    (f.tree.notedFindings f.tree.leadingDirectives f.references.libraries .misplacedLibrary ++
      f.tree.notedFindings f.tree.leadingDirectives f.references.imports .misplacedImport).map
        fun x => x.diagnostic fileId

/-! ### Notes -/

lemma NodeKind.isDirective_eq (kind : NodeKind) :
    kind.isDirective = (Tree.isLibrary kind || Tree.isImport kind) := by
  cases kind <;> rfl

/-- No statement names both a library and a file. -/
lemma Tree.not_isImport_of_isLibrary {kind : NodeKind} (h : isLibrary kind = true) :
    ¬ isImport kind = true := by
  cases kind with
  | library => exact Bool.false_ne_true
  | _ => cases h

namespace References

/-- The references of `r` and behind them those of `r'`. -/
protected def append (r r' : References) : References :=
  ⟨r.libraries ++ r'.libraries, r.imports ++ r'.imports⟩

instance : Append References := ⟨References.append⟩

/-- The references among some nodes. -/
def of (ts : List NumberedTree) : References :=
  ⟨(ts.filter fun t => Tree.isLibrary t.kind).map Tree.id,
    (ts.filter fun t => Tree.isImport t.kind).map Tree.id⟩

@[simp] lemma libraries_append (r r' : References) :
    (r ++ r').libraries = r.libraries ++ r'.libraries := rfl

@[simp] lemma imports_append (r r' : References) : (r ++ r').imports = r.imports ++ r'.imports :=
  rfl

@[simp] lemma append_empty (r : References) : r ++ empty = r :=
  References.ext (List.append_nil _) (List.append_nil _)

lemma append_assoc (r r' r'' : References) : r ++ r' ++ r'' = r ++ (r' ++ r'') :=
  References.ext (List.append_assoc _ _ _) (List.append_assoc _ _ _)

@[simp] lemma of_nil : of [] = empty := rfl

lemma of_append (ts us : List NumberedTree) : of (ts ++ us) = of ts ++ of us :=
  References.ext (by simp [of]) (by simp [of])

/-- Other nodes are not among the references. -/
lemma of_cons {t : NumberedTree} (ht : t.kind.isDirective = false) (ts : List NumberedTree) :
    of (t :: ts) = of ts := by
  obtain ⟨hlibrary, himport⟩ := Bool.or_eq_false_iff.1 (t.kind.isDirective_eq ▸ ht)
  exact References.ext (by simp [of, hlibrary]) (by simp [of, himport])

end References

open References

/-- The references among the nodes of a tree that is no directive are those below its root. -/
lemma Tree.references_preorder {t : NumberedTree} (ht : t.kind.isDirective = false) :
    of t.preorder = of (preorderAll t.children) := by
  obtain ⟨id, kind, range, children⟩ := t
  exact of_cons ht _

/-- A node that is made is noted if it is a directive. -/
lemma Reading.references_allocate {form : Form NumberedTree} {kind : NodeKind}
    {children : List NumberedTree} (hform : form.Has kind children) (u : Reading)
    (range range' : Option Range) :
    (u.allocate form range).references = u.references ++ of [⟨u.next, kind, range', children⟩] := by
  rw [allocate, hform.kind_eq]
  cases kind with
  | library | importStatement =>
    simp [References.addLibrary, References.addImport, of, References.ext_iff, Tree.isLibrary,
      Tree.isImport]
  | _ => exact (append_empty _).symm

namespace Production

variable {c : Category} {kind : NodeKind} {range : Option Range} {items : List Item}

/-- A directive has no children, and has a range. -/
lemma directive_inv (h : Production c kind range items) (hk : kind.isDirective = true) :
    nodes items = [] ∧ ∃ r, range = some r := by
  cases h with
  | @extended make word wanted k extra =>
    have hk : some k.range ∈ [some k.range, extra.map Token.range] := .head _
    obtain ⟨r, hr, -⟩ := exists_bounding_covers hk
    exact ⟨by simp, r, hr⟩
  | @arm form => cases form <;> cases hk
  | single h | named h => cases h <;> cases hk
  | _ => cases hk

/-- What is noted for a node and what is below it are the references of its tree. -/
lemma references_eq {u : Reading} (h : Production c kind range items) (range' : Option Range) :
    of (Tree.preorderAll (nodes items)) ++ of [⟨u.next, kind, range', nodes items⟩] =
      of (Tree.preorder ⟨u.next, kind, range', nodes items⟩) := by
  cases hk : kind.isDirective with
  | true =>
    rw [(h.directive_inv hk).1]
    rfl
  | false =>
    rw [Tree.references_preorder hk, of_cons hk, of_nil, append_empty]

end Production

/-- Neither an assignment nor its target is a directive. -/
lemma assignment?_isDirective {target value t : NumberedTree} {op : Token}
    (h : assignment? target op value = some t) :
    target.kind.isDirective = false ∧ t.kind.isDirective = false := by
  unfold assignment? at h
  split at h
  case h_1 hk | h_2 hk | h_3 hk =>
    cases h
    rw [hk]
    exact ⟨rfl, rfl⟩
  case h_4 => cases h

/-- The directives that are read are noted behind the others, in pre-order. -/
theorem Reads.references_eq {s s' : Reading} {items : List Item} (h : Reads s items s') :
    s'.references = s.references ++ of (Tree.preorderAll (nodes items)) := by
  induction h with
  | nil s => exact (append_empty s.references).symm
  | token _ _ _ ih => exact ih
  | @node s u s' c kind range form inside items _ hp hform _ ihi ih
  | @inline s u s' kind range form inside items _ hp hform _ ihi ih =>
    rw [ih, Reading.references_allocate hform u range range, ihi,
      append_assoc s.references, hp.references_eq, append_assoc, ← of_append]
    rfl
  | @assignment s u v s' target value t op items ht _ _ ha _ iht ihv ih =>
    obtain ⟨htarget, hkind⟩ := assignment?_isDirective ha
    obtain ⟨-, -, -, hchildren⟩ := assignment?_inv (fun _ => ht.children_name) ha
    have hparts : of t.preorder = of target.preorder ++ of value.preorder := by
      rw [Tree.references_preorder hkind, hchildren, Tree.preorderAll_append, of_append,
        ← Tree.references_preorder htarget, Tree.preorderAll, Tree.preorderAll, List.append_nil]
    simp only [nodes_node, nodes_token, nodes_nil, Tree.preorderAll, List.append_nil] at iht ihv
    have hsame : (v.reassign target op value t.range).references = v.references := rfl
    rw [ih, hsame, ihv, iht, append_assoc s.references, ← hparts, append_assoc, ← of_append]
    rfl
  | @close s u v s' arm kind range form inside items e ends r _ hp _ hform _ _ _ ihi ihe ih =>
    rw [nodes_tokens, Tree.preorderAll, of_nil, append_empty] at ihe
    have hsame : (v.grow u.next r).references = v.references := rfl
    rw [ih, hsame, ihe, Reading.references_allocate hform u range _, ihi,
      append_assoc s.references, hp.references_eq, append_assoc, ← of_append]
    rfl

/-! ### Reports -/

lemma Tree.leadingStatements_eq {ι : Type} (t : Tree ι) :
    t.leadingStatements = t.children.takeWhile fun s => s.kind.isPreamble := by
  rw [leadingStatements]
  congr 1

/-- The first of some statements that are no preamble does not belong to a preamble. -/
lemma isPreamble_head?_dropWhile {ι : Type} (ts : List (Tree ι)) :
    ∀ t ∈ (ts.dropWhile fun s => s.kind.isPreamble).head?, t.kind.isPreamble = false := by
  intro t ht
  have hhead := List.head?_dropWhile_not (fun s : Tree ι => s.kind.isPreamble) ts
  rwa [Option.mem_def.1 ht] at hhead

/-- What has something below it is no leaf. -/
lemma Tree.children_ne_nil_of_isAncestor {t : NumberedTree} {l k : Located Nat}
    (hk : k ∈ t.located) (h : l.IsAncestor k) : l.node.children ≠ [] := by
  obtain ⟨node, ancestors⟩ := k
  obtain ⟨between, he⟩ := h
  induction between generalizing node ancestors with
  | nil =>
    have hchild := (parent_mem_located hk he.symm).2
    exact List.ne_nil_of_mem hchild
  | cons p between ih => exact ih p _ (parent_mem_located hk he.symm).1 rfl

namespace ParsedFile

variable {source : String} {f : ParsedFile} {t : NumberedTree}

/-- The references of a file are those among its nodes. -/
lemma references_eq (h : ofSource source = .ok f) : f.references = of f.tree.preorder := by
  obtain ⟨-, items, rest, hmade⟩ := made_of_ofSource h
  rw [hmade.references_eq, hmade.reads.references_eq, hmade.tree_eq, Tree.references_preorder rfl]
  rfl

/-- The directives of a file have no children, and have ranges. -/
lemma directive_inv (h : ofSource source = .ok f) (ht : t ∈ f.tree.preorder)
    (hk : t.kind.isDirective = true) : t.children = [] ∧ ∃ r, t.range = some r := by
  cases origin h t ht with
  | made _ _ hp hc =>
    rw [hc]
    exact hp.directive_inv hk
  | assigned _ _ _ _ ha =>
    rw [(assignment?_isDirective ha).2] at hk
    cases hk
  | @closed _ _ form _ _ _ _ hp _ =>
    obtain ⟨keyword, _, _, _, _, _, -, -, hkind, -, -⟩ := hp.arm_inv
    rw [hkind] at hk
    cases form <;> cases hk

/-- The directives of a file stand behind one another in the source. -/
lemma ordered_directives (h : ofSource source = .ok f) :
    (f.nodesOf NodeKind.isDirective).Pairwise fun t u =>
      ∃ r ∈ t.range, ∃ s ∈ u.range, r.finish ≤ s.start := by
  have hplaces : (f.tree.located.filter fun l => l.node.kind.isDirective).Pairwise fun l k =>
      ∃ r ∈ l.node.range, ∃ s ∈ k.node.range, r.finish ≤ s.start := by
    have hlocated := (pairwise_located h).filter fun l => l.node.kind.isDirective
    apply hlocated.imp_of_mem
    intro l k hl hk hlk
    obtain ⟨hl, hldirective⟩ := List.mem_filter.1 hl
    obtain ⟨hk, hkdirective⟩ := List.mem_filter.1 hk
    have hmem {m : Located Nat} (hm : m ∈ f.tree.located) : m.node ∈ f.tree.preorder :=
      (Tree.preorder_sublist hm).subset m.node.self_mem_preorder
    obtain ⟨hleaf, r, hr⟩ := directive_inv h (hmem hl) hldirective
    obtain ⟨-, s, hs⟩ := directive_inv h (hmem hk) hkdirective
    have hprecedes := hlk.resolve_left fun ha => Tree.children_ne_nil_of_isAncestor hk ha hleaf
    exact ⟨r, hr, s, hs, hprecedes r hr s hs⟩
  rw [nodesOf, ← Tree.map_node_located, List.filter_map]
  exact List.pairwise_map.2 hplaces

/-- The numbers of the nodes that a file starts with are those of different nodes. -/
lemma eq_of_id_eq (h : ofSource source = .ok f) {u : NumberedTree} (ht : t ∈ f.tree.preorder)
    (hu : u ∈ f.tree.preorder) (he : t.id = u.id) : t = u :=
  List.inj_on_of_nodup_map (isScript h).nodup ht hu he

/-- A node of a file is found under its number. -/
lemma find?_eq (h : ofSource source = .ok f) (ht : t ∈ f.tree.preorder) :
    (f.tree.find? t.id).bind (fun l => l.node.range) = t.range := by
  obtain ⟨l, hl, rfl⟩ := Tree.mem_preorder_iff_located.1 ht
  rw [Located.find?_eq (isScript h) hl]
  rfl

/-- The leading statements of a file are nodes of the file. -/
lemma mem_preorder_of_mem_leadingStatements (ht : t ∈ f.tree.leadingStatements) :
    t ∈ f.tree.preorder := by
  rw [Tree.leadingStatements_eq] at ht
  exact Tree.mem_preorder_of_child (List.takeWhile_subset _ ht) t.self_mem_preorder

/-- A directive is among the leading statements of its file if it is among their directives. -/
lemma id_mem_leadingDirectives (h : ofSource source = .ok f) (ht : t ∈ f.tree.preorder)
    (hk : t.kind.isDirective = true) :
    t.id ∈ f.tree.leadingDirectives ↔ t.id ∈ f.tree.leadingStatements.map Tree.id := by
  constructor
  · intro hid
    obtain ⟨u, hu, he⟩ := List.mem_map.1 hid
    exact List.mem_map.2 ⟨u, (List.mem_filter.1 hu).1, he⟩
  · intro hid
    obtain ⟨u, hu, he⟩ := List.mem_map.1 hid
    have hsame := eq_of_id_eq h (mem_preorder_of_mem_leadingStatements hu) ht he
    subst hsame
    exact List.mem_map.2 ⟨u, List.mem_filter.2 ⟨hu, hk⟩, rfl⟩

/-- Late nodes are those that the leading statements do not hold. -/
lemma lateFindings_eq (f : ParsedFile) (q : NodeKind → Bool) (v : Violation) :
    f.tree.lateFindings q v =
      ((f.nodesOf q).filter (·.id ∉ f.tree.leadingStatements.map Tree.id)).map
        fun t => ⟨v, t.range⟩ := by
  rw [Tree.lateFindings, nodesOf, List.filter_filter]
  simp only [Bool.and_comm]

/-- Going through the numbers of some directives is going through them in the tree. -/
lemma notedFindings_eq (h : ofSource source = .ok f) {q : NodeKind → Bool} {v : Violation}
    (hq : ∀ kind, q kind = true → kind.isDirective = true) :
    f.tree.notedFindings f.tree.leadingDirectives ((f.nodesOf q).map Tree.id) v =
      f.tree.lateFindings q v := by
  have hnode {t : NumberedTree} (ht : t ∈ f.nodesOf q) :
      t ∈ f.tree.preorder ∧ t.kind.isDirective = true :=
    (List.mem_filter.1 ht).imp_right (hq _)
  have hlate : (f.nodesOf q).filter (fun t => t.id ∉ f.tree.leadingDirectives) =
      (f.nodesOf q).filter fun t => t.id ∉ f.tree.leadingStatements.map Tree.id := by
    apply List.filter_congr
    intro t ht
    have hid := id_mem_leadingDirectives h (hnode ht).1 (hnode ht).2
    exact decide_eq_decide.2 (not_congr hid)
  rw [Tree.notedFindings, lateFindings_eq, ← hlate, List.filter_map, List.map_map]
  apply List.map_congr_left
  intro t ht
  have hfound := find?_eq h (hnode (List.mem_filter.1 ht).1).1
  exact congrArg (Finding.mk v) hfound

/--
Whatever tables and diagnostics a file had before, validation reports each library and then each
of the imports that does not stand in the run of directives and comments that the file starts with;
those that were noted while the file was read are the libraries and the imports of its tree.
-/
theorem reportsDirectives_validate (h : ofSource source = .ok f) (scopes : Scopes) (sink : Sink) :
    ReportsDirectives f sink.fileId (Analysis.validate ⟨f.tree, scopes⟩ false sink).2.items := by
  have hreferences := references_eq h
  have hlibraries : f.references.libraries = (f.nodesOf Tree.isLibrary).map Tree.id :=
    congrArg References.libraries hreferences
  have himports : f.references.imports = (f.nodesOf Tree.isImport).map Tree.id :=
    congrArg References.imports hreferences
  have hitems : (Analysis.validate ⟨f.tree, scopes⟩ false sink).2.items.filter
      (fun d => d.code = 1111 ∨ d.code = 1112) = f.tree.directiveFindings.map
        fun x => x.diagnostic sink.fileId := by
    rw [← f.tree.filter_findings_directive]
    exact Analysis.filter_items_validate _ false sink fun code => code = 1111 ∨ code = 1112
  constructor
  case libraries => exact hlibraries
  case imports => exact himports
  case nodup =>
    have hnodup (q : NodeKind → Bool) : ((f.nodesOf q).map Tree.id).Nodup :=
      (isScript h).nodup.sublist (List.filter_sublist.map _)
    rw [hlibraries, himports]
    apply List.nodup_append.2 ⟨hnodup _, hnodup _, ?_⟩
    intro n hn m hm he
    obtain ⟨t, ht, rfl⟩ := List.mem_map.1 hn
    obtain ⟨u, hu, rfl⟩ := List.mem_map.1 hm
    obtain ⟨ht, hlibrary⟩ := List.mem_filter.1 ht
    obtain ⟨hu, himport⟩ := List.mem_filter.1 hu
    rw [eq_of_id_eq h ht hu he] at hlibrary
    exact Tree.not_isImport_of_isLibrary hlibrary himport
  case ordered => exact ordered_directives h
  case reported =>
    refine ⟨f.tree.leadingStatements, f.tree.children.dropWhile fun s => s.kind.isPreamble, ?_, ?_,
      isPreamble_head?_dropWhile _, ?_⟩
    · rw [Tree.leadingStatements_eq, List.takeWhile_append_dropWhile]
    · rw [Tree.leadingStatements_eq]
      intro t ht
      exact List.mem_takeWhile_imp (p := fun s : NumberedTree => s.kind.isPreamble) ht
    · rw [hitems, Tree.directiveFindings, lateFindings_eq, lateFindings_eq, List.map_append,
        List.map_map, List.map_map]
      rfl
  case noted =>
    rw [hitems, hlibraries, himports,
      notedFindings_eq h fun kind hk => by rw [kind.isDirective_eq, hk, Bool.true_or],
      notedFindings_eq h fun kind hk => by rw [kind.isDirective_eq, hk, Bool.or_true]]
    rfl

/-- Directives at the top of a file, in an anonymous function, and at the end of the file. -/
theorem reportsDirectives_validate_of_function :
    ∃ f, ofSource ("' a\nlibrary \"l\"\n\nimport \"i\"\nx = function()\nimport \"j\"\n" ++
        "library \"m\"\nend function\nlibrary") = .ok f ∧
      f.references = ⟨[2, 6, 9], [3, 5]⟩ ∧
      ∀ scopes sink,
        ReportsDirectives f sink.fileId (Analysis.validate ⟨f.tree, scopes⟩ false sink).2.items ∧
        (Analysis.validate ⟨f.tree, scopes⟩ false sink).2.items.filter
          (fun d => d.code = 1111 ∨ d.code = 1112) =
            [Finding.diagnostic ⟨.misplacedLibrary, some ⟨⟨6, 0⟩, ⟨6, 11⟩⟩⟩ sink.fileId,
              Finding.diagnostic ⟨.misplacedLibrary, some ⟨⟨8, 0⟩, ⟨8, 7⟩⟩⟩ sink.fileId,
              Finding.diagnostic ⟨.misplacedImport, some ⟨⟨5, 0⟩, ⟨5, 10⟩⟩⟩ sink.fileId] := by
  have hread : (ofSource
      ("' a\nlibrary \"l\"\n\nimport \"i\"\nx = function()\nimport \"j\"\n" ++
        "library \"m\"\nend function\nlibrary")).toOption.any fun f =>
        f.references = ⟨[2, 6, 9], [3, 5]⟩ ∧ f.tree.directiveFindings =
          [⟨.misplacedLibrary, some ⟨⟨6, 0⟩, ⟨6, 11⟩⟩⟩, ⟨.misplacedLibrary, some ⟨⟨8, 0⟩, ⟨8, 7⟩⟩⟩,
            ⟨.misplacedImport, some ⟨⟨5, 0⟩, ⟨5, 10⟩⟩⟩] := by
    decide +kernel
  obtain ⟨f, hf, hread⟩ := exists_of_any hread
  obtain ⟨hreferences, hfindings⟩ := of_decide_eq_true hread
  refine ⟨f, hf, hreferences, fun scopes sink =>
    ⟨reportsDirectives_validate hf scopes sink, ?_⟩⟩
  have hitems := Analysis.filter_items_validate ⟨f.tree, scopes⟩ false sink
    fun code => code = 1111 ∨ code = 1112
  rw [f.tree.filter_findings_directive, hfindings] at hitems
  exact hitems

end ParsedFile

end BrighterCheck
