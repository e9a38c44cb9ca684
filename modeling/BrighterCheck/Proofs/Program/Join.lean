import BrighterCheck.Proofs.Parser.Join
import BrighterCheck.Proofs.Tree.Rows

/-!
# Joined files

Two sources that are joined by a line feed give the nodes of both, those of the second one further
down and behind those of the first one.
-/

namespace BrighterCheck.ParsedFile

variable {f f' g : ParsedFile} {source source' source'' : String} {r : Relabel}

/-- The rows of the nodes of joined files, in source order. -/
lemma rows_of_joins (h : ofSource source = .ok f) (h' : ofSource source' = .ok f')
    (hj : f.Joins f' r g) :
    g.tree.located.map Located.row = Located.row ⟨g.tree, []⟩ ::
      ((f.tree.children.flatMap (Tree.locatedBelow [f.tree])).map Located.row ++
        (f'.tree.children.flatMap (Tree.locatedBelow [f'.tree])).map r.row) := by
  have hid : g.tree.id = 0 := by
    rw [hj.tree_eq]
    rfl
  have hchildren : g.tree.children =
      f.tree.children.map Relabel.refl.tree ++ f'.tree.children.map r.tree := by
    rw [hj.tree_eq, funext Relabel.tree_refl, List.map_id']
    rfl
  have hrefl := Relabel.refl.row_flatMap (id_tree h) hid fun u => id_ne_zero h
  have hr := r.row_flatMap (id_tree h') hid fun u => id_ne_zero h'
  rw [Tree.located, Tree.locatedBelow_eq, List.map_cons, hchildren, List.flatMap_append,
    List.map_append, hrefl, hr, Relabel.row_refl]

/-- The arena of joined files has the rows of both behind that of the root. -/
theorem arena_of_joins (h : ofSource source = .ok f) (h' : ofSource source' = .ok f')
    (hg : ofSource source'' = .ok g) (hj : f.Joins f' r g) (hr : f.nodeCount = r.shift + 1) :
    g.arena = ⟨.body, g.tree.range, none, g.tree.children.map Tree.id⟩ ::
      (f.arena.tail ++ f'.arena.tail.map r.record) := by
  obtain ⟨ls, hls, hperm, hlength, hids⟩ := exists_byNumber_eq h
  obtain ⟨ls', hls', hperm', hlength', hids'⟩ := exists_byNumber_eq h'
  have hshift : r.shift = ls.length := by omega
  have hnumbers : (Located.row ⟨g.tree, []⟩ :: (ls.map Located.row ++ ls'.map r.row)).map Prod.fst =
      List.range g.nodeCount := by
    have hfirst : (ls.map Located.row).map Prod.fst = List.range' 1 ls.length := by
      rw [← hids, List.map_map]
      rfl
    have hsecond : (ls'.map r.row).map Prod.fst = List.range' (1 + ls.length) ls'.length := by
      rw [← hshift, ← Relabel.map_number_range', ← hids', List.map_map, List.map_map]
      rfl
    have hcount : g.nodeCount = ls.length + ls'.length + 1 := by
      rw [hj.nodeCount_eq]
      omega
    rw [List.map_cons, List.map_append, hfirst, hsecond, List.range'_append_1, hcount,
      List.range_eq_range', List.range'_succ]
    exact congrArg (· :: _) (id_tree hg)
  have hperm'' : (g.tree.located.map Located.row).Perm
      (Located.row ⟨g.tree, []⟩ :: (ls.map Located.row ++ ls'.map r.row)) := by
    rw [rows_of_joins h h' hj]
    exact .cons _ ((hperm.map _).append (hperm'.map _))
  have hroot : g.tree.kind = .body := by
    rw [hj.tree_eq]
    rfl
  rw [arena_eq_of_perm hg hnumbers hperm'', arena_eq h, arena_eq h', hls, hls', ← hroot]
  simp only [List.map_cons, List.map_append, List.map_map, List.tail_cons]
  rfl

/-- Two sources that are files make a file with a line feed between them, of the nodes of both. -/
theorem joins_at_line_feed (h : ofSource source = .ok f) (h' : ofSource source' = .ok f') :
    let r := Relabel.below (f.nodeCount - 1) (source.toList.count '\n' + 1)
    ∃ g, ofSource (source ++ "\n" ++ source') = .ok g ∧ f.Joins f' r g ∧
      g.arena = ⟨.body, g.tree.range, none, g.tree.children.map Tree.id⟩ ::
        (f.arena.tail ++ f'.arena.tail.map r.record) := by
  intro r
  have hr : f.nodeCount = r.shift + 1 := by
    obtain ⟨ls, -, -, hlength, -⟩ := exists_byNumber_eq h
    show f.nodeCount = f.nodeCount - 1 + 1
    omega
  obtain ⟨s, hs, hf⟩ := ofSource_eq_ok.1 h
  obtain ⟨s', hs', hf'⟩ := ofSource_eq_ok.1 h'
  obtain ⟨g, hg, hj⟩ := ofStream_join hf hf' (TokenStream.isClosed_of_ofSource hs)
    (TokenStream.isClosed_of_ofSource hs') hr
  have hsource := ofSource_eq_ok.2 ⟨_, TokenStream.ofSource_join hs hs' (f.nodeCount - 1), hg⟩
  exact ⟨g, hsource, hj, arena_of_joins h h' hsource hj hr⟩

/-- A file that ends in a bare `return`, and one that would go on with a value. -/
theorem joins_at_line_feed_of_return :
    ∃ f f' g, ofSource "library \"a\"\nif b then return" = .ok f ∧
      ofSource "import \"b\"\nc = 1" = .ok f' ∧ f.nodeCount = 6 ∧ f'.nodeCount = 4 ∧
      ofSource ("library \"a\"\nif b then return" ++ "\n" ++ "import \"b\"\nc = 1") = .ok g ∧
      f.Joins f' (.below 5 2) g ∧
      g.arena = ⟨.body, g.tree.range, none, g.tree.children.map Tree.id⟩ ::
        (f.arena.tail ++ f'.arena.tail.map (Relabel.below 5 2).record) := by
  have hcount : (ofSource "library \"a\"\nif b then return").toOption.any
      fun f => f.nodeCount = 6 := by
    decide +kernel
  have hcount' : (ofSource "import \"b\"\nc = 1").toOption.any fun f => f.nodeCount = 4 := by
    decide +kernel
  have hlines : "library \"a\"\nif b then return".toList.count '\n' + 1 = 2 := by
    decide +kernel
  obtain ⟨f, hf, hcount⟩ := exists_of_any hcount
  obtain ⟨f', hf', hcount'⟩ := exists_of_any hcount'
  have hsix : f.nodeCount = 6 := of_decide_eq_true hcount
  obtain ⟨g, hg, hj, ha⟩ := joins_at_line_feed hf hf'
  rw [hsix, hlines] at hj ha
  exact ⟨f, f', g, hf, hf', hsix, of_decide_eq_true hcount', hg, hj, ha⟩

end BrighterCheck.ParsedFile
