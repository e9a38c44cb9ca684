import BrighterCheck.Proofs.Symbol.Declaration
import BrighterCheck.Proofs.Tree.Heading
import BrighterCheck.Proofs.Tree.Label
import BrighterCheck.Proofs.Tree.Traversal

/-!
# Outlines of files

The outline of a tree has one line for each node, in the order in which a walk enters the nodes, and
a loop over the rows of the arena writes the same lines. No line goes over the end of a line, so
that the lines can be read from the outline, and the headings of the nodes from the lines. The nodes
below a node are those that follow it with more ancestors than it has, so that the headings
determine the tree, but for what it does not show of its nodes (`Tree.sketch_eq_of_headings`).
-/

namespace BrighterCheck

variable {ι : Type}

/-- What the outline tells of a node in its place. -/
def Located.heading (l : Located ι) : Heading :=
  ⟨l.ancestors.length, l.node.kind.display, l.node.kind.label?, l.node.range⟩

namespace NodeKind

/-- The number of a kind among all kinds; the counter of a loop is an assignment. -/
def variant : NodeKind → Nat
  | .counter n op => (assignment n op).ctorIdx
  | kind => kind.ctorIdx

/-- The names of all kinds, each at the number of its kind. -/
def names : List String :=
  ["Body", "Comment", "Assignment", "Assignment", "DottedSet", "IndexedSet", "Increment",
    "ExpressionStatement", "Print", "If", "While", "For", "ForEach", "ExitLoop", "Continue",
    "Return", "Dim", "Try", "Catch", "Throw", "Stop", "End", "Function", "Method", "Field", "Class",
    "Namespace", "Interface", "InterfaceField", "InterfaceMethod", "Enum", "EnumMember", "Const",
    "Library", "Import", "ConditionalCompileConst", "ConditionalCompileError",
    "ConditionalCompile", "Typecast", "Alias", "Literal", "Variable", "Unary", "Binary", "Grouping",
    "DottedGet", "IndexedGet", "Call", "Callfunc", "New", "ArrayLiteral", "AALiteral", "AAMember",
    "FunctionExpression", "FunctionParameter"]

lemma getElem?_names (kind : NodeKind) : names[kind.variant]? = some kind.display := by
  cases kind <;> rfl

lemma idxOf_names (kind : NodeKind) : names.idxOf kind.display = kind.variant := by
  cases kind <;> rfl

/-- The name of a kind tells it from all others. -/
theorem display_eq_iff {kind kind' : NodeKind} :
    kind.display = kind'.display ↔ kind.variant = kind'.variant := by
  constructor
  · intro h
    rw [← idxOf_names, h, idxOf_names]
  · intro h
    have hname := getElem?_names kind
    rw [h, getElem?_names] at hname
    exact (Option.some.inj hname).symm

end NodeKind

/-- What an outline shows of a tree: kinds, labels and ranges in the shape of the tree. -/
inductive Sketch where
  | node (kind : String) (label : Option String) (range : Option Range) (children : List Sketch)

namespace Tree

mutual

/-- What the outline shows of a tree. -/
def sketch : Tree ι → Sketch
  | ⟨_, kind, range, children⟩ => .node kind.display kind.label? range (sketchAll children)

/-- What the outlines show of several trees. -/
def sketchAll : List (Tree ι) → List Sketch
  | [] => []
  | t :: ts => t.sketch :: sketchAll ts

end

lemma sketchAll_eq (ts : List (Tree ι)) : sketchAll ts = ts.map sketch := by
  induction ts with
  | nil => rfl
  | cons t ts ih => rw [sketchAll, ih, List.map_cons]

lemma sketch_eq (t : Tree ι) :
    t.sketch = .node t.kind.display t.kind.label? t.range (t.children.map sketch) := by
  obtain ⟨id, kind, range, children⟩ := t
  rw [sketch, sketchAll_eq]

/-- Trees show the same exactly if they have the same kinds, labels and ranges, node by node. -/
theorem sketch_eq_iff {t t' : Tree ι} : t.sketch = t'.sketch ↔
    t.kind.variant = t'.kind.variant ∧ t.kind.label? = t'.kind.label? ∧ t.range = t'.range ∧
      t.children.map sketch = t'.children.map sketch := by
  rw [sketch_eq, sketch_eq, Sketch.node.injEq, NodeKind.display_eq_iff]

/-! ### Lines -/

lemma toList_pushn (s : String) (c : Char) (n : Nat) :
    (s.pushn c n).toList = s.toList ++ List.replicate n c := by
  induction n with
  | zero => exact (List.append_nil _).symm
  | succ n ih =>
    show ((s.pushn c n).push c).toList = _
    rw [String.toList_push, ih, List.append_assoc, List.replicate_succ']

/-- The line of a node in its place tells its heading. -/
lemma outlineLine_eq (l : Located ι) :
    outlineLine l.ancestors.length l.node = String.ofList l.heading.text := by
  have hlabel : ((l.node.kind.label?.map (" " ++ ·)).getD "").toList =
      Heading.labelText l.node.kind.label? := by
    cases l.node.kind.label? with
    | none => rfl
    | some label => exact String.toList_append
  have hrange : ((l.node.range.map (" @ " ++ ·.display)).getD "").toList =
      Heading.rangeText l.node.range := by
    cases l.node.range with
    | none => rfl
    | some range => exact String.toList_append
  rw [← String.toList_inj, String.toList_ofList]
  simp only [outlineLine, String.toList_append, toList_pushn, hlabel, hrange]
  simp [Heading.text, Located.heading]

lemma outlineLinesAll_eq (depth : Nat) (ts : List (Tree ι)) :
    outlineLinesAll depth ts = ts.flatMap (outlineLines depth) := by
  induction ts with
  | nil => rfl
  | cons t ts ih => rw [outlineLinesAll, ih, List.flatMap_cons]

/-- The lines are those of the nodes in pre-order. -/
lemma outlineLines_eq (t : Tree ι) (above : List (Tree ι)) :
    outlineLines above.length t =
      (locatedBelow above t).map fun l => outlineLine l.ancestors.length l.node := by
  induction t using Tree.induction generalizing above with
  | node t ih =>
    have hchildren : t.children.flatMap (outlineLines (above.length + 1)) =
        t.children.flatMap fun u => (locatedBelow (t :: above) u).map fun l =>
          outlineLine l.ancestors.length l.node :=
      List.flatMap_congr fun u hu => ih u hu (t :: above)
    rw [locatedBelow_eq, List.map_cons, List.map_flatMap, ← hchildren, ← outlineLinesAll_eq]
    obtain ⟨id, kind, range, children⟩ := t
    rfl

/-- The outline is the lines of the nodes in pre-order, each with its end. -/
lemma toList_outline (t : Tree ι) :
    t.outline.toList = (t.located.map fun l => l.heading.text).flatMap (· ++ ['\n']) := by
  have hlines : outlineLines 0 t =
      t.located.map fun l => outlineLine l.ancestors.length l.node := outlineLines_eq t []
  rw [outline, hlines, String.toList_join, List.map_map, List.flatMap_map, List.flatMap_map]
  refine List.flatMap_congr fun l _ => ?_
  rw [Function.comp_apply, outlineLine_eq, String.toList_append, String.toList_ofList]
  rfl

end Tree

/-- Lines are read from a text as they were written to it. -/
lemma lines_flatMap {ls : List (List Char)} (h : ∀ l ∈ ls, '\n' ∉ l) :
    lines (ls.flatMap (· ++ ['\n'])) = ls.map (· ++ ['\n']) ++ [[]] := by
  have hcons {cs : List Char} (hcs : '\n' ∉ cs) (ds : List Char) :
      lines (cs ++ '\n' :: ds) = (cs ++ ['\n']) :: lines ds := by
    induction cs with
    | nil => rfl
    | cons c cs ih =>
      obtain ⟨hc, hcs⟩ := List.ne_and_not_mem_of_not_mem_cons hcs
      rw [List.cons_append, lines_cons_of_ne (Ne.symm hc), ih hcs]
      rfl
  induction ls with
  | nil => rfl
  | cons l ls ih =>
    obtain ⟨hl, hls⟩ := List.forall_mem_cons.1 h
    rw [List.flatMap_cons, List.append_assoc, List.singleton_append, hcons hl, ih hls]
    rfl

/-! ### Shapes -/

namespace Tree

/-- The headings of some trees tell where the trees end: there the number of ancestors falls. -/
lemma sketchAll_eq_of_headings {ts ts' above above' : List (Tree ι)} {rest rest' : List Heading}
    (ih : ∀ t ∈ ts, ∀ (t' : Tree ι) {rest rest' : List Heading},
      (∀ h ∈ rest.head?, h.depth ≤ above.length) → (∀ h ∈ rest'.head?, h.depth ≤ above'.length) →
      (locatedBelow above t).map Located.heading ++ rest =
        (locatedBelow above' t').map Located.heading ++ rest' →
      t.sketch = t'.sketch ∧ rest = rest')
    (habove : above.length = above'.length)
    (hrest : ∀ h ∈ rest.head?, h.depth < above.length)
    (hrest' : ∀ h ∈ rest'.head?, h.depth < above'.length)
    (he : (ts.flatMap (locatedBelow above)).map Located.heading ++ rest =
      (ts'.flatMap (locatedBelow above')).map Located.heading ++ rest') :
    ts.map sketch = ts'.map sketch ∧ rest = rest' := by
  have hhead {ts above : List (Tree ι)} {rest : List Heading}
      (hrest : ∀ h ∈ rest.head?, h.depth < above.length) :
      ∀ h ∈ ((ts.flatMap (locatedBelow above)).map Located.heading ++ rest).head?,
        h.depth ≤ above.length := by
    intro h hh
    cases ts with
    | nil => exact (hrest h hh).le
    | cons t ts =>
      rw [List.flatMap_cons, locatedBelow_eq] at hh
      cases hh
      exact le_rfl
  induction ts generalizing ts' with
  | nil =>
    cases ts' with
    | nil => exact ⟨rfl, he⟩
    | cons t' ts' =>
      -- A further tree would start with as many ancestors.
      rw [List.flatMap_cons, locatedBelow_eq] at he
      have hlt := hrest _ (congrArg List.head? he)
      exact absurd hlt (habove ▸ lt_irrefl _)
  | cons t ts ihts =>
    cases ts' with
    | nil =>
      rw [List.flatMap_cons, locatedBelow_eq] at he
      have hlt := hrest' _ (congrArg List.head? he.symm)
      exact absurd hlt (habove ▸ lt_irrefl _)
    | cons t' ts' =>
      rw [List.flatMap_cons, List.flatMap_cons, List.map_append, List.map_append,
        List.append_assoc, List.append_assoc] at he
      obtain ⟨ht, he⟩ := ih t (.head _) t' (hhead hrest) (hhead hrest') he
      obtain ⟨hts, he⟩ := ihts (fun u hu => ih u (.tail _ hu)) he
      exact ⟨congrArg₂ List.cons ht hts, he⟩

/-- The headings of a tree tell its shape and where it ends. -/
theorem sketch_eq_of_headings (t t' : Tree ι) {above above' : List (Tree ι)}
    {rest rest' : List Heading} (hrest : ∀ h ∈ rest.head?, h.depth ≤ above.length)
    (hrest' : ∀ h ∈ rest'.head?, h.depth ≤ above'.length)
    (he : (locatedBelow above t).map Located.heading ++ rest =
      (locatedBelow above' t').map Located.heading ++ rest') :
    t.sketch = t'.sketch ∧ rest = rest' := by
  induction t using Tree.induction generalizing t' above above' rest rest' with
  | node t ih =>
    rw [locatedBelow_eq, locatedBelow_eq, List.map_cons, List.map_cons, List.cons_append,
      List.cons_append] at he
    obtain ⟨hfirst, he⟩ := List.cons.inj he
    obtain ⟨habove, hkind, hlabel, hrange⟩ := Heading.mk.inj hfirst
    have hlength : (t :: above).length = (t' :: above').length := congrArg (· + 1) habove
    obtain ⟨hchildren, he⟩ := sketchAll_eq_of_headings
      (fun u hu u' _ _ hrest hrest' he => ih u hu u' hrest hrest' he) hlength
      (fun h hh => Nat.lt_succ_of_le (hrest h hh)) (fun h hh => Nat.lt_succ_of_le (hrest' h hh)) he
    refine ⟨?_, he⟩
    rw [sketch_eq, sketch_eq, hchildren, hkind, hlabel, hrange]

/-- What an outline shows of a tree tells the headings. -/
lemma headings_eq_of_sketch {t t' : Tree ι} {above above' : List (Tree ι)}
    (habove : above.length = above'.length) (hs : t.sketch = t'.sketch) :
    (locatedBelow above t).map Located.heading =
      (locatedBelow above' t').map Located.heading := by
  induction t using Tree.induction generalizing t' above above' with
  | node t ih =>
    rw [sketch_eq, sketch_eq] at hs
    obtain ⟨hkind, hlabel, hrange, hchildren⟩ := Sketch.node.inj hs
    have hlength : (t :: above).length = (t' :: above').length := congrArg (· + 1) habove
    have hbelow : ∀ us us' : List (Tree ι), us ⊆ t.children → us.map sketch = us'.map sketch →
        (us.flatMap (locatedBelow (t :: above))).map Located.heading =
          (us'.flatMap (locatedBelow (t' :: above'))).map Located.heading := by
      intro us
      induction us with
      | nil =>
        intro us' _ he
        cases List.map_eq_nil_iff.1 he.symm
        rfl
      | cons u us ihus =>
        intro us' hus he
        obtain ⟨hu, hus⟩ := List.cons_subset.1 hus
        cases us' with
        | nil => cases he
        | cons u' us' =>
          obtain ⟨hfirst, hrest⟩ := List.cons.inj he
          have hheadings := ih u hu hlength hfirst
          rw [List.flatMap_cons, List.flatMap_cons, List.map_append, List.map_append,
            hheadings, ihus us' hus hrest]
    have hfirst : Located.heading ⟨t, above⟩ = Located.heading ⟨t', above'⟩ := by
      simp only [Located.heading, habove, hkind, hlabel, hrange]
    rw [locatedBelow_eq, locatedBelow_eq, List.map_cons, List.map_cons, hfirst,
      hbelow _ _ (List.Subset.refl _) hchildren]

end Tree

/-! ### The loop over the arena -/

/-- The line of a row whose node has `depth` ancestors. -/
def Record.outlineLine (depth : Nat) (r : Record) : String :=
  Tree.outlineLine depth (⟨(), r.kind, r.range, []⟩ : Tree Unit)

/--
The loop of an outline over the rows of an arena, which ends where nothing is pending. What is on
top of the stack, with the number of its ancestors, gets a line, and its children take its place.
-/
inductive Arena.Outlines (a : Arena) : List (Nat × Nat) → List String → Prop where
  | done : a.Outlines [] []
  | line {n depth : Nat} {r : Record} {stack : List (Nat × Nat)} {ls : List String} :
      a[n]? = some r → a.Outlines (r.children.map (·, depth + 1) ++ stack) ls →
      a.Outlines ((n, depth) :: stack) (r.outlineLine depth :: ls)

/-- The loop writes the same lines whenever it is run. -/
lemma Arena.Outlines.unique {a : Arena} {stack : List (Nat × Nat)} {ls ls' : List String}
    (h : a.Outlines stack ls) (h' : a.Outlines stack ls') : ls = ls' := by
  induction h generalizing ls' with
  | done =>
    cases h'
    rfl
  | line hr _ ih =>
    cases h' with
    | line hr' h' =>
      cases hr.symm.trans hr'
      rw [ih h']

/-- Kinds have names of letters. -/
lemma NodeKind.display_letters (kind : NodeKind) :
    kind.display.toList ≠ [] ∧ ∀ c ∈ kind.display.toList, c.isAlpha = true := by
  have hall : (!kind.display.toList.isEmpty && kind.display.toList.all Char.isAlpha) = true := by
    unfold display
    split <;> decide
  simpa using hall

namespace ParsedFile

variable {source source' : String} {f f' : ParsedFile}

/-- What is pending at a node gets its lines before the rest of the stack. -/
lemma outlines_located (h : ofSource source = .ok f) {t : NumberedTree} {above : List NumberedTree}
    (hl : ⟨t, above⟩ ∈ f.tree.located) {stack : List (Nat × Nat)} {ls : List String}
    (hrest : f.arena.Outlines stack ls) :
    f.arena.Outlines ((t.id, above.length) :: stack) (t.outlineLines above.length ++ ls) := by
  induction t using Tree.induction generalizing above stack ls with
  | node t ih =>
    have hchildren : ∀ us : List NumberedTree, us ⊆ t.children →
        f.arena.Outlines (us.map (fun u => (u.id, above.length + 1)) ++ stack)
          (Tree.outlineLinesAll (above.length + 1) us ++ ls) := by
      intro us hus
      induction us with
      | nil => exact hrest
      | cons u us ihus =>
        obtain ⟨hu, hus⟩ := List.cons_subset.1 hus
        have hlines := ih u hu (Tree.child_mem_located hl hu) (ihus hus)
        rwa [← List.append_assoc] at hlines
    have hall := hchildren t.children (List.Subset.refl _)
    have hpending : f.arena.Outlines
        ((Located.record ⟨t, above⟩).children.map (·, above.length + 1) ++ stack)
        (Tree.outlineLinesAll (above.length + 1) t.children ++ ls) := by
      rw [Located.record, List.map_map]
      exact hall
    have hline := Arena.Outlines.line (getElem?_arena_id h hl) hpending
    obtain ⟨id, kind, range, children⟩ := t
    exact hline

/-- The loop that starts at the root writes the lines of all nodes. -/
lemma outlines_root (h : ofSource source = .ok f) {ls : List String} :
    f.arena.Outlines [(0, 0)] ls ↔
      ls = f.tree.located.map fun l => String.ofList l.heading.text := by
  have hloop := outlines_located h Tree.root_mem_located .done
  have hlines := Tree.outlineLines_eq f.tree []
  simp only [Tree.outlineLine_eq] at hlines
  rw [id_tree h, List.append_nil, hlines] at hloop
  constructor
  · intro hls
    exact hls.unique hloop
  · intro hls
    rw [hls]
    exact hloop

/-- A heading of a file can be read. -/
lemma isReadable_heading (h : ofSource source = .ok f) {l : Located Nat}
    (hl : l ∈ f.tree.located) : l.heading.IsReadable where
  kind_ne := l.node.kind.display_letters.1
  blank_notMem hmem := absurd (l.node.kind.display_letters.2 _ hmem) (by decide)
  label_eq hrange := by
    -- Only an empty body has no range.
    have hplaced := allPlaced (P := fun _ => True) (fun _ _ _ _ => trivial) h (fun _ _ => trivial)
    have hbody := ((hplaced l.node (Located.node_mem_preorder hl)).range_eq_none.1 hrange).1
    rw [Located.heading, hbody]
    rfl

/-- A heading of a file stays on its line. -/
lemma newline_notMem_heading (h : ofSource source = .ok f) {l : Located Nat}
    (hl : l ∈ f.tree.located) : '\n' ∉ l.heading.text := by
  have hkind : '\n' ∉ l.node.kind.display.toList := fun hmem =>
    absurd (l.node.kind.display_letters.2 _ hmem) (by decide)
  have hlabel : '\n' ∉ Heading.labelText l.node.kind.label? := by
    cases hk : l.node.kind.label? with
    | none => exact List.not_mem_nil
    | some label =>
      have hline := (isOneLine_label h (Located.node_mem_preorder hl) hk).newline_notMem
      simpa [Heading.labelText] using hline
  have hrange : '\n' ∉ Heading.rangeText l.node.range := by
    cases l.node.range with
    | none => exact List.not_mem_nil
    | some r => simp [Heading.rangeText, r.notMem_display (c := '\n') rfl]
  simp [Heading.text, Located.heading, hkind, hlabel, hrange]

/-- The lines of an outline are those of the nodes in pre-order, before an empty last line. -/
lemma lines_outline (h : ofSource source = .ok f) : lines f.tree.outline.toList =
    (f.tree.located.map fun l => l.heading.text ++ ['\n']) ++ [[]] := by
  have hlines : ∀ line ∈ f.tree.located.map fun l => l.heading.text, '\n' ∉ line := by
    intro line hline
    obtain ⟨l, hl, rfl⟩ := List.mem_map.1 hline
    exact newline_notMem_heading h hl
  rw [Tree.toList_outline, lines_flatMap hlines, List.map_map]
  rfl

/-- The headings of a file can be read from its outline. -/
lemma headings_eq_of_outline (h : ofSource source = .ok f) (h' : ofSource source' = .ok f')
    (he : f.tree.outline = f'.tree.outline) :
    f.tree.located.map Located.heading = f'.tree.located.map Located.heading := by
  have hlines := lines_outline h
  rw [he, lines_outline h'] at hlines
  have htexts := List.append_cancel_right hlines
  refine Heading.map_text_inj ?_ ?_ (by rw [List.map_map, List.map_map]; exact htexts.symm)
  · intro heading hmem
    obtain ⟨l, hl, rfl⟩ := List.mem_map.1 hmem
    exact isReadable_heading h hl
  · intro heading hmem
    obtain ⟨l, hl, rfl⟩ := List.mem_map.1 hmem
    exact isReadable_heading h' hl

/-- Outlines are equal exactly where they show the same. -/
lemma outline_eq_iff (h : ofSource source = .ok f) (h' : ofSource source' = .ok f') :
    f.tree.outline = f'.tree.outline ↔ f.tree.sketch = f'.tree.sketch := by
  constructor
  · intro he
    have hheadings : f.tree.located.map Located.heading ++ [] =
        f'.tree.located.map Located.heading ++ [] := by
      rw [headings_eq_of_outline h h' he]
    exact (Tree.sketch_eq_of_headings f.tree f'.tree (by nofun) (by nofun) hheadings).1
  · intro hs
    have hheadings : (Tree.locatedBelow [] f.tree).map Located.heading =
        (Tree.locatedBelow [] f'.tree).map Located.heading :=
      Tree.headings_eq_of_sketch rfl hs
    have htexts := congrArg (List.map Heading.text) hheadings
    rw [List.map_map, List.map_map] at htexts
    refine String.toList_inj.1 ?_
    rw [Tree.toList_outline, Tree.toList_outline]
    exact congrArg (List.flatMap (· ++ ['\n'])) htexts

/--
The outline of a file has one line for each node of the arena, and an empty last line. A walk enters
the nodes in the order of their lines, and the loop over the arena writes these lines only. A line
tells the number of ancestors, the kind, the label and the range of its node. Labels do not go over
the end of a line, and so the outlines of two files are equal if and only if their trees have the
same shape, with the same kinds, labels and ranges (`Tree.sketch_eq_iff`).
-/
theorem outline_shows_tree (h : ofSource source = .ok f) :
    let entered := (f.tree.walk none).filterMap Event.entered?
    lines f.tree.outline.toList = (entered.map fun l => l.heading.text ++ ['\n']) ++ [[]] ∧
      (entered.map (·.node.id)).Perm (List.range f.arena.length) ∧
      (∀ ls, f.arena.Outlines [(0, 0)] ls ↔
        ls = entered.map fun l => String.ofList l.heading.text) ∧
      (∀ l ∈ entered, ∀ label, l.node.kind.label? = some label → IsOneLine label.toList) ∧
      ∀ source' f', ofSource source' = .ok f' →
        (f.tree.outline = f'.tree.outline ↔ f.tree.sketch = f'.tree.sketch) := by
  intro entered
  have hentered : entered = f.tree.located := by
    show (f.tree.walk none).filterMap Event.entered? = _
    rw [Tree.walk_eq_traversal]
    exact Tree.filterMap_entered_traversal _ _
  rw [hentered]
  refine ⟨lines_outline h, ?_, fun ls => ?_, fun l hl label hk => ?_,
    fun source' f' h' => outline_eq_iff h h'⟩
  · have hids := perm_ids h
    rwa [← Tree.map_node_located, List.map_map, ← length_arena f] at hids
  · exact outlines_root h
  · exact isOneLine_label h (Located.node_mem_preorder hl) hk

/-- A label can look like a range. -/
theorem outline_shows_tree_of_string :
    ∃ f, ofSource "x = \"1 @ 1:1-1:2\"" = .ok f ∧
      f.tree.outline = "Body @ 1:1-1:18\n  Assignment x @ 1:1-1:18\n" ++
        "    Literal \"1 @ 1:1-1:2\" @ 1:5-1:18\n" ∧
      ∀ source' f', ofSource source' = .ok f' →
        (f.tree.outline = f'.tree.outline ↔ f.tree.sketch = f'.tree.sketch) := by
  have houtline : (ofSource "x = \"1 @ 1:1-1:2\"").toOption.any fun f =>
      f.tree.outline = "Body @ 1:1-1:18\n  Assignment x @ 1:1-1:18\n" ++
        "    Literal \"1 @ 1:1-1:2\" @ 1:5-1:18\n" := by
    decide +kernel
  obtain ⟨f, hf, houtline⟩ := exists_of_any houtline
  exact ⟨f, hf, of_decide_eq_true houtline, (outline_shows_tree hf).2.2.2.2⟩

end ParsedFile

end BrighterCheck
