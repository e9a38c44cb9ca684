import BrighterCheck.Proofs.Lexer.Join
import BrighterCheck.Proofs.Parser.Listing

/-!
# Statements of joined files

The first file is read in step with the joined one, up to the line end between them. From there on
the second file is read in step with it, further down and behind the nodes of the first one.
-/

namespace BrighterCheck

open BrighterCheck.Parser

namespace Passage

/-- The way to a source that starts with the same tokens, and goes on behind a line end. -/
def toLonger (tail : List Token) (h : ∀ t ∈ tail.head?, t.kind = .newline) : Passage where
  relabel := .refl
  base := .empty
  tail := tail
  faithful := False
  kind_tail := h
  tail_eq_nil := False.elim

/-- The way to a source that ends with the relabelled tokens, behind the references of `base`. -/
def toEnd (r : Relabel) (base : References) : Passage where
  relabel := r
  base := base
  tail := []
  faithful := False
  kind_tail := kind_head?_nil
  tail_eq_nil := False.elim

end Passage

namespace ParsedFile

variable {s s' : TokenStream} {f f' : ParsedFile} {r : Relabel}

lemma fileStatements_eq_ok (hs : s.IsClosed) {ts : List NumberedTree} {u : Reading} :
    fileStatements (.start s) = .ok ts u ↔
      (nestedWithin (s.tokens.length + 1)).Lists (.start s) ts u := by
  have hn : (Passage.toEnd .refl .empty).OnNested (nestedWithin (s.tokens.length + 1))
      (nestedWithin (s.tokens.length + 1)) :=
    Passage.onNested_nestedWithin le_rfl fun _ => rfl
  exact statements_eq_ok hn hs.kind_eof

lemma ofStream_eq_ok (hs : s.IsClosed) :
    ofStream s = .ok f ↔ ∃ ts u, (nestedWithin (s.tokens.length + 1)).Lists (.start s) ts u ∧
      f = ofStatements s ts u := by
  unfold ofStream
  constructor
  · intro h
    cases hfile : fileStatements (.start s) with
    | error e u =>
      rw [hfile] at h
      cases h
    | ok ts u =>
      rw [hfile] at h
      cases h
      exact ⟨ts, u, (fileStatements_eq_ok hs).1 hfile, rfl⟩
  · rintro ⟨ts, u, hu, rfl⟩
    rw [(fileStatements_eq_ok hs).2 hu]

/-- The file `g` has the statements of `f` and, behind them, the relabelled ones of `f'`. -/
structure Joins (f f' : ParsedFile) (r : Relabel) (g : ParsedFile) : Prop where
  stream_eq : g.stream = f.stream.join f'.stream r
  tree_eq : g.tree = root (f.tree.children ++ f'.tree.children.map r.tree)
  nodeCount_eq : g.nodeCount = f'.nodeCount + r.shift
  libraries_eq : g.references.libraries =
    f.references.libraries ++ (r.references f'.references).libraries
  imports_eq : g.references.imports =
    f.references.imports ++ (r.references f'.references).imports

lemma isClosed_join (hs : s.IsClosed) (hs' : s'.IsClosed) : (s.join s' r).IsClosed := by
  refine ⟨hs'.kind_eof, fun t ht => ?_⟩
  rcases List.mem_append.1 ht with ht | ht
  · exact hs.kinds t ht
  · rcases List.mem_cons.1 ht with rfl | ht
    · exact nofun
    · obtain ⟨u, hu, rfl⟩ := List.mem_map.1 ht
      exact hs'.kinds u hu

/-- Joined tokens give the joined file. -/
theorem ofStream_join (h : ofStream s = .ok f) (h' : ofStream s' = .ok f') (hs : s.IsClosed)
    (hs' : s'.IsClosed) (hr : f.nodeCount = r.shift + 1) :
    ∃ g, ofStream (s.join s' r) = .ok g ∧ f.Joins f' r g := by
  obtain ⟨ts, u, hu, rfl⟩ := (ofStream_eq_ok hs).1 h
  obtain ⟨ts', u', hu', rfl⟩ := (ofStream_eq_ok hs').1 h'
  rw [nodeCount_ofStatements] at hr
  have hlength : (s.join s' r).tokens.length = s.tokens.length + (s'.tokens.length + 1) := by
    simp [TokenStream.join]
  let first := Passage.toLonger (s.lineEnd :: s'.tokens.map r.token) fun t ht => by
    cases ht
    rfl
  let second := Passage.toEnd r u.references
  have hself (P : Passage) : P.OnNested (nestedWithin ((s.join s' r).tokens.length + 1))
      (nestedWithin ((s.join s' r).tokens.length + 1)) :=
    Passage.onNested_nestedWithin le_rfl fun _ => rfl
  -- Up to the line end, nothing but the rest of the source is different.
  have hfirst : first.OnNested (nestedWithin (s.tokens.length + 1))
      (nestedWithin ((s.join s' r).tokens.length + 1)) :=
    Passage.onNested_nestedWithin (by omega) False.elim
  have hstart : first.InStep (.start s) (.start (s.join s' r)) := by
    refine ⟨hs.kind_eof, hs.kinds, ?_, fun hnil => absurd hnil (List.cons_ne_nil _ _),
      rfl, rfl, rfl⟩
    show (s.join s' r).tokens = s.tokens.map id ++ _
    rw [List.map_id]
    rfl
  obtain ⟨hnil, v, hv, heof, hjoin⟩ := hstart.lists hfirst (hself first) hu
  -- Behind it the second source starts.
  have hv_tokens : v.tokens = s.lineEnd :: s'.tokens.map r.token := by
    rw [hv.tokens_eq, hnil]
    rfl
  have hsecond : second.OnNested (nestedWithin (s'.tokens.length + 1))
      (nestedWithin ((s.join s' r).tokens.length + 1)) :=
    Passage.onNested_nestedWithin (by omega) False.elim
  have hstart' : second.InStep (.start s') { v with tokens := s'.tokens.map r.token } := by
    refine ⟨hs'.kind_eof, hs'.kinds, (List.append_nil _).symm, fun _ => heof, ?_, ?_, ?_⟩
    · show v.next = 1 + r.shift
      rw [hv.next_eq, Nat.add_comm 1]
      exact hr
    · show v.references.libraries = u.references.libraries ++ []
      rw [hv.libraries_eq, List.append_nil]
      exact List.map_id' _
    · show v.references.imports = u.references.imports ++ []
      rw [hv.imports_eq, List.append_nil]
      exact List.map_id' _
  obtain ⟨hnil', w, hw, -, hjoin'⟩ := hstart'.lists hsecond (hself second) hu'
  have hw_tokens : w.tokens = [] := by
    rw [hw.tokens_eq, hnil']
    rfl
  have hw_skipped : w.skipped = w := by
    rw [Reading.skipped, hw_tokens, List.dropWhile_nil, ← hw_tokens]
  have hdone : (nestedWithin ((s.join s' r).tokens.length + 1)).Lists w [] w.skipped := by
    apply Nested.Lists.done
    rw [hw_skipped, Reading.current, hw_tokens, hw.eof_eq rfl]
    exact hw.kind_eof
  have hv_skipped : v.skipped = Reading.skipped { v with tokens := s'.tokens.map r.token } := by
    rw [Reading.skipped, hv_tokens]
    rfl
  have hlists := hjoin _ _ ((hjoin' _ _ hdone).of_skipped_eq hv_skipped)
  refine ⟨_, (ofStream_eq_ok (isClosed_join hs hs')).2 ⟨_, _, hlists, rfl⟩, rfl, ?_, ?_, ?_, ?_⟩
  · have hrefl : ts.map first.relabel.tree = ts :=
      (List.map_congr_left fun t _ => Relabel.tree_refl t).trans (List.map_id' _)
    rw [hrefl, List.append_nil]
    rfl
  · rw [nodeCount_ofStatements, nodeCount_ofStatements]
    exact hw.next_eq
  · exact hw.libraries_eq
  · exact hw.imports_eq

end ParsedFile

end BrighterCheck
