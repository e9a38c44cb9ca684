import BrighterCheck.Proofs.Parser.Soundness.File
import Mathlib.Data.List.Basic

/-!
# The numbers of nodes

A node takes the next number when its last item has been read, so its children stand right before
it. Only the statements that are made from a target keep the number that the target had before their
value was read. `Numbered n ts m` says so for trees that share the numbers from `n` up to `m`; the
numbers in them are then exactly these, each once.
-/

namespace BrighterCheck

open BrighterCheck.Parser Item

/-- Numbers up to `m` and from `m` on. -/
lemma range'_split {n m k : Nat} (h : n ≤ m) (h' : m ≤ k) :
    List.range' n (m - n) ++ List.range' m (k - m) = List.range' n (k - n) := by
  have e : m = n + (m - n) := by omega
  have e' : k - n = (m - n) + (k - m) := by omega
  rw [e', ← List.range'_append_1, ← e]

/-- Numbers from `m` on start with `m`. -/
lemma range'_head {m k : Nat} (h : m < k) :
    List.range' m (k - m) = m :: List.range' (m + 1) (k - (m + 1)) := by
  have e : k - m = k - (m + 1) + 1 := by omega
  rw [e, List.range'_succ]

/-- The trees `ts` have the numbers from `n` up to, not including, `m`. -/
inductive Numbered : Nat → List NumberedTree → Nat → Prop where
  | nil (n : Nat) : Numbered n [] n
  | node {n m k : Nat} {kind : NodeKind} {range : Option Range} {children ts : List NumberedTree} :
      Numbered n children m → Numbered (m + 1) ts k →
      Numbered n (⟨m, kind, range, children⟩ :: ts) k
  /-- The value of a targeted statement is read after the statement got its number. -/
  | targeted {n m k l : Nat} {kind : NodeKind} {range : Option Range}
      {objects ts : List NumberedTree} {value : NumberedTree} :
      kind.isTargeted = true → Numbered n objects m → Numbered (m + 1) [value] k →
      Numbered k ts l → Numbered n (⟨m, kind, range, objects ++ [value]⟩ :: ts) l

namespace Numbered

variable {n m k : Nat} {t : NumberedTree} {ts us : List NumberedTree}

lemma append (h : Numbered n ts m) (h' : Numbered m us k) : Numbered n (ts ++ us) k := by
  induction h with
  | nil => exact h'
  | node hc _ _ ih => exact .node hc (ih h')
  | targeted ht ho hv _ _ _ ih => exact .targeted ht ho hv (ih h')

lemma of_nil (h : Numbered n [] m) : n = m := by
  cases h
  rfl

/-- A node that is not targeted comes right after its children. -/
lemma of_node {kind : NodeKind} {id : Nat} {range : Option Range} {children : List NumberedTree}
    (ht : kind.isTargeted = false) (h : Numbered n [⟨id, kind, range, children⟩] m) :
    Numbered n children id ∧ m = id + 1 := by
  cases h with
  | node hc hs =>
    cases hs
    exact ⟨hc, rfl⟩
  | targeted ht' => rw [ht] at ht'; cases ht'

lemma le (h : Numbered n ts m) : n ≤ m := by
  induction h with
  | nil => exact Nat.le_refl _
  | node _ _ ihc ihs => omega
  | targeted _ _ _ _ iho ihv ihs => omega

/-- The numbers of the nodes are all that the trees share, each of them once. -/
theorem perm (h : Numbered n ts m) :
    ((Tree.preorderAll ts).map Tree.id).Perm (List.range' n (m - n)) := by
  induction h with
  | nil => simp [Tree.preorderAll]
  | @node n m k kind range children ts hc hs ihc ihs =>
    rw [← range'_split hc.le (Nat.le_of_succ_le hs.le), range'_head hs.le]
    simpa [Tree.preorderAll, Tree.preorder] using
      (List.perm_middle.symm.trans ((ihc.append_right _).trans ((ihs.cons m).append_left _)))
  | @targeted n m k l kind range objects ts value _ ho hv hs iho ihv ihs =>
    have hmk := hv.le
    have hkl := hs.le
    rw [← range'_split ho.le (show m ≤ l by omega), range'_head (show m < l by omega),
      ← range'_split hmk hkl]
    have hov := List.perm_middle.symm.trans ((iho.append_right _).trans
      (((ihv.append ihs).cons m).append_left _))
    simpa [Tree.preorderAll, Tree.preorder, Tree.preorderAll_append] using hov

end Numbered

/-- A name has no nodes inside it. -/
lemma Reads.children_name {s s' : Reading} {t : NumberedTree} {name : Token}
    (h : Reads s [.node .expression t] s') (hk : t.kind = .name name) : t.children = [] := by
  cases h with
  | node _ hp =>
    cases hk
    cases hp with
    | name => rfl

/-- An assignment has the number of its target, and the value behind what was in the target. -/
lemma assignment?_inv {target value t : NumberedTree} {op : Token}
    (hname : ∀ name, target.kind = .name name → target.children = [])
    (h : assignment? target op value = some t) :
    target.kind.isTargeted = false ∧ t.kind.isTargeted = true ∧ t.id = target.id ∧
      t.children = target.children ++ [value] := by
  unfold assignment? at h
  split at h
  case h_1 name hk =>
    cases h
    rw [hk, hname name hk]
    exact ⟨rfl, rfl, rfl, rfl⟩
  case h_2 hk => cases h; exact ⟨hk ▸ rfl, rfl, rfl, rfl⟩
  case h_3 hk => cases h; exact ⟨hk ▸ rfl, rfl, rfl, rfl⟩
  case h_4 => cases h

/-- An assignment shares the numbers of its target and its value. -/
lemma assignment?_numbered {target value t : NumberedTree} {op : Token} {n m k : Nat}
    (hname : ∀ name, target.kind = .name name → target.children = [])
    (ha : assignment? target op value = some t) (ht : Numbered n [target] m)
    (hv : Numbered m [value] k) : Numbered n [t] k := by
  obtain ⟨id, kind, range, children⟩ := target
  dsimp only at hname
  cases kind with
  | name name =>
    cases ha
    obtain ⟨hc, rfl⟩ := ht.of_node rfl
    rw [hname name rfl] at hc
    exact .targeted rfl hc hv (.nil _)
  | dottedGet =>
    cases ha
    obtain ⟨hc, rfl⟩ := ht.of_node rfl
    exact .targeted rfl hc hv (.nil _)
  | indexedGet =>
    cases ha
    obtain ⟨hc, rfl⟩ := ht.of_node rfl
    exact .targeted rfl hc hv (.nil _)
  | _ => cases ha

/-- Reading numbers the nodes that it makes, from the next number on. -/
theorem Reads.numbered {s s' : Reading} {items : List Item} (h : Reads s items s') :
    Numbered s.next (nodes items) s'.next := by
  induction h with
  | nil => exact .nil _
  | token _ _ _ ih => exact ih
  | node _ _ _ _ ihi ih =>
    rw [Reading.next_allocate] at ih
    exact .node ihi ih
  | assignment ht _ _ ha _ iht ihv ih =>
    rw [Reading.next_reassign] at ih
    exact (assignment?_numbered (fun _ => ht.children_name) ha iht ihv).append ih
  | inline _ _ _ _ ihi ih =>
    rw [Reading.next_allocate] at ih
    exact .node ihi ih
  | close _ _ _ _ _ _ _ ihi ihe ih =>
    rw [nodes_tokens, Reading.next_allocate] at ihe
    rw [Reading.next_grow, ← ihe.of_nil] at ih
    exact .node ihi ih

/-- All nodes of a file have numbers below the number of its nodes, each of them a different one. -/
theorem ParsedFile.perm_ids {source : String} {f : ParsedFile} (h : ofSource source = .ok f) :
    (f.tree.preorder.map Tree.id).Perm (List.range f.nodeCount) := by
  obtain ⟨-, items, rest, hm⟩ := made_of_ofSource h
  have hn : Numbered 1 (nodes items) rest.next := hm.reads.numbered
  have hrange : List.range f.nodeCount = 0 :: List.range' 1 (rest.next - 1) := by
    rw [hm.nodeCount_eq, List.range_eq_range']
    exact range'_head hn.le
  rw [hrange, hm.tree_eq]
  exact hn.perm.cons 0

end BrighterCheck
