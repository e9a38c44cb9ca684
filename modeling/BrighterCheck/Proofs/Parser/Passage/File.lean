import BrighterCheck.Proofs.Parser.Passage.Statement
import BrighterCheck.Proofs.Lexer.Stream
import BrighterCheck.Parser.File

/-!
# Relabelled files

The parsers for every depth are carried over, by induction on the depth. So a file whose tokens are
relabelled gives the relabelled tree, or the relabelled error.
-/

namespace BrighterCheck

open BrighterCheck.Parser

namespace Passage

variable {P : Passage} {d d' : Nat}

/-- Nothing is read where the depth is used up. -/
lemma TakesFrom.exhausted {m' : Parser NumberedTree}
    (hm : P.faithful → m' = Parser.refuseFor .expression) :
    P.Takes P.OnTree (Parser.refuseFor .expression) m' where
  leads _ h := absurd h not_refuseFor_eq_ok
  ok _ _ h := absurd h not_refuseFor_eq_ok
  error hfaithful hI hs h := by
    have hrefuse : P.Takes P.OnTree (Parser.refuseFor .expression)
        (Parser.refuseFor .expression) := .refuseFor
    rw [hm hfaithful]
    exact hrefuse.error hfaithful hI hs h
  takes _ _ h := absurd h not_refuseFor_eq_ok

/-- A second source may nest deeper than the first one. -/
lemma onNested_nestedWithin (hd : d ≤ d') (hf : P.faithful → d = d') :
    P.OnNested (nestedWithin d) (nestedWithin d') := by
  induction d generalizing d' with
  | zero =>
    constructor
    · exact .exhausted fun h => by rw [← hf h]; rfl
    · exact .exhausted fun h => by rw [← hf h]; rfl
  | succ d ih =>
    obtain ⟨d', rfl⟩ := Nat.exists_eq_succ_of_ne_zero (Nat.ne_zero_of_lt hd)
    have hnested := ih (Nat.le_of_succ_le_succ hd) fun h => Nat.succ.inj (hf h)
    exact ⟨.expression hnested, .statement hnested⟩

end Passage

namespace ParsedFile

/-- What shows of a file: its tokens, its tree, the number of its nodes and its references. -/
structure View where
  stream : TokenStream
  tree : NumberedTree
  nodeCount : Nat
  references : References

def view (f : ParsedFile) : View :=
  ⟨f.stream, f.tree, f.nodeCount, f.references⟩

def relabel (f : ParsedFile) (r : Relabel) : View :=
  ⟨r.stream f.stream, r.tree f.tree, f.nodeCount + r.shift, r.references f.references⟩

/-- The way to a source in which nothing but labels is different. -/
def passage (r : Relabel) : Passage where
  relabel := r
  base := .empty
  tail := []
  faithful := True
  kind_tail := Passage.kind_head?_nil
  tail_eq_nil _ := rfl

lemma inStep_start {r : Relabel} {s : TokenStream} (hr : r.shift = 0) (hs : s.IsClosed) :
    (passage r).InStep (.start s) (.start (r.stream s)) where
  kind_eof := hs.kind_eof
  kinds := hs.kinds
  tokens_eq := (List.append_nil _).symm
  eof_eq _ := rfl
  next_eq := by
    show 1 = 1 + r.shift
    rw [hr]
  libraries_eq := rfl
  imports_eq := rfl

lemma carries_fileStatements {r : Relabel} {s : TokenStream} :
    (passage r).Carries True (passage r).OnTrees
      (statements (nestedWithin (s.tokens.length + 1)) .none)
      (statements (nestedWithin ((r.stream s).tokens.length + 1)) .none) := by
  have hlength : s.tokens.length + 1 = (r.stream s).tokens.length + 1 := by
    simp [Relabel.stream]
  exact .statements (Passage.onNested_nestedWithin hlength.le fun _ => hlength)
    Passage.isBlind_none

lemma relabel_root {r : Relabel} (hr : r.shift = 0) (ts : List NumberedTree) :
    r.tree (root ts) = root (ts.map r.tree) := by
  simp [root, Relabel.tree_mk, Relabel.kind, hr]

/-- Relabelled tokens give the relabelled file or the relabelled error. -/
theorem ofStream_relabel {r : Relabel} {s : TokenStream} (hr : r.shift = 0) (hs : s.IsClosed) :
    (ofStream (r.stream s)).map view = ((ofStream s).map (relabel · r)).mapError r.error := by
  have hstep := inStep_start hr hs
  have hcarries := carries_fileStatements (r := r) (s := s)
  unfold ofStream
  cases h : fileStatements (.start s) with
  | ok ts u =>
    have hlost : ¬ (passage r).Lost u := fun hlost => hlost.2 rfl
    obtain ⟨_, u', h', rfl, hu⟩ :=
      (hcarries.ok trivial hstep h).resolve_left fun h => hlost h.2
    have h' : fileStatements (.start (r.stream s)) = .ok _ u' := h'
    rw [h']
    have hreferences : u'.references = r.references u.references :=
      References.ext hu.libraries_eq hu.imports_eq
    have hnext : u'.next = u.next + r.shift := hu.next_eq
    have hview : (ofStatements (r.stream s) (ts.map r.tree) u').view =
        (ofStatements s ts u).relabel r := by
      rw [view, relabel, nodeCount_ofStatements, nodeCount_ofStatements, hnext]
      simp only [ofStatements, relabel_root hr, hreferences]
    exact congrArg Except.ok hview
  | error e u =>
    obtain ⟨u', h'⟩ := hcarries.error trivial trivial hstep h
    have h' : fileStatements (.start (r.stream s)) = .error _ u' := h'
    rw [h']
    rfl

/-- Sources whose tokens look the same give files that look the same, or the same error. -/
theorem ofSource_eq_of_stream_eq {r : Relabel} {source source' : String} (hr : r.shift = 0)
    (herror : ∀ e, r.error e = e)
    (h : (TokenStream.ofSource source).map r.stream = (TokenStream.ofSource source').map r.stream) :
    (ofSource source).map (relabel · r) = (ofSource source').map (relabel · r) := by
  have hfile {source : String} {s : TokenStream} (hs : TokenStream.ofSource source = .ok s) :
      (ofSource source).map (relabel · r) =
        ((ofStream (r.stream s)).map view).mapError .grammatical := by
    rw [ofStream_relabel hr (TokenStream.isClosed_of_ofSource hs), ofSource, hs]
    dsimp only
    cases ofStream s with
    | ok f => rfl
    | error e => exact congrArg (fun e => Except.error (SourceError.grammatical e)) (herror e).symm
  cases hs : TokenStream.ofSource source with
  | error e =>
    cases hs' : TokenStream.ofSource source' with
    | error e' =>
      rw [hs, hs'] at h
      cases h
      rw [ofSource, ofSource, hs, hs']
    | ok s' =>
      rw [hs, hs'] at h
      cases h
  | ok s =>
    cases hs' : TokenStream.ofSource source' with
    | error e' =>
      rw [hs, hs'] at h
      cases h
    | ok s' =>
      rw [hs, hs'] at h
      rw [hfile hs, hfile hs', Except.ok.inj h]

end ParsedFile

end BrighterCheck
