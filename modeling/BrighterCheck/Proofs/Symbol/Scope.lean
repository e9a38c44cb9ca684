import BrighterCheck.Proofs.Symbol.Declaration
import BrighterCheck.Proofs.Text.LetterCase

/-!
# Scopes of declarations

The scope of a declaration is a scope around the node, or the function expression of a method, which
comes after it. So nothing but `super` is declared in a scope before the scope itself is reached.
One node never declares two symbols with the same name.
-/

namespace BrighterCheck

open Ascii

/-! ### Where nodes declare symbols -/

namespace Located

variable {t : NumberedTree} {l S : Located Nat} {e : SymbolEntry}

lemma isScope_of_isFunction (hf : l.node.IsFunction) : l.isScope = true := by
  obtain ⟨keyword, returns, hk⟩ := hf
  rw [isScope, hk]
  rfl

/-- The scope of a node is the node or an ancestor. -/
lemma scope_suffix (l : Located Nat) : l.scope.selfAndAncestors <:+ l.selfAndAncestors := by
  obtain ⟨node, ancestors⟩ := l
  induction ancestors generalizing node with
  | nil => exact List.suffix_rfl
  | cons p above ih =>
    unfold scope scopeFrom
    split
    case isTrue => exact List.suffix_rfl
    case isFalse => exact (ih p).trans (List.suffix_cons _ _)

/-- The scope of a node is a scope, as the root is one. -/
lemma isScope_scope (h : t.IsScript) (hl : l ∈ t.located) : l.scope.isScope = true := by
  obtain ⟨node, ancestors⟩ := l
  induction ancestors generalizing node with
  | nil =>
    cases Tree.node_eq_of_ancestors_eq_nil hl rfl
    show opensScope node.kind [] = true
    rw [h.kind_eq]
    rfl
  | cons p above ih =>
    unfold scope scopeFrom
    split
    case isTrue hs => exact hs
    case isFalse => exact ih p (Tree.parent_mem_located hl rfl).1

/-- A node and its ancestors are nodes of the tree. -/
lemma mem_located_of_suffix (hl : l ∈ t.located) (hs : S.selfAndAncestors <:+ l.selfAndAncestors) :
    S ∈ t.located :=
  Tree.mem_of_suffix (List.append_nil _).symm hl hs

lemma parent?_suffix {p : Located Nat} (hp : l.parent? = some p) :
    p.selfAndAncestors <:+ l.selfAndAncestors := by
  obtain ⟨node, ancestors⟩ := l
  cases ancestors with
  | nil => cases hp
  | cons q above =>
    cases hp
    exact List.suffix_cons _ _

lemma root_suffix (l : Located Nat) : l.root.selfAndAncestors <:+ l.selfAndAncestors := by
  obtain ⟨node, ancestors⟩ := l
  induction ancestors generalizing node with
  | nil => exact List.suffix_rfl
  | cons p above ih =>
    rw [root, List.getLastD_cons]
    exact (ih p).trans (List.suffix_cons _ _)

/-- Symbols are declared in scopes around the node; only `super` is declared below it. -/
lemma Declares.suffix_or (hd : l.Declares S e) :
    S.selfAndAncestors <:+ l.selfAndAncestors ∨
      e.name = "super" ∧ S = ⟨l.node.firstChild, l.selfAndAncestors⟩ := by
  cases hd with
  | inner => exact .inl (scope_suffix l)
  | outer hp | function hp => exact .inl ((scope_suffix _).trans (parent?_suffix hp))
  | flattened => exact .inl (root_suffix l)
  | receiver => exact .inl List.suffix_rfl
  | super => exact .inr ⟨rfl, rfl⟩

/-- Symbols are declared in scopes of the tree. -/
lemma Declares.isScope (h : t.IsScript) (hl : l ∈ t.located) (hd : l.Declares S e) :
    S ∈ t.located ∧ S.isScope = true := by
  cases hd with
  | inner => exact ⟨mem_located_of_suffix hl (scope_suffix l), isScope_scope h hl⟩
  | outer hp | function hp =>
    have hmem := mem_located_of_suffix hl (parent?_suffix hp)
    exact ⟨mem_located_of_suffix hmem (scope_suffix _), isScope_scope h hmem⟩
  | flattened =>
    have hmem := mem_located_of_suffix hl (root_suffix l)
    exact ⟨hmem, isScope_scope h hmem⟩
  | @receiver keyword returns hk => exact ⟨hl, isScope_of_isFunction ⟨keyword, returns, hk⟩⟩
  | super hk =>
    have hshaped := h.isShaped l.node (node_mem_preorder hl)
    rw [Tree.IsShaped, hk] at hshaped
    obtain ⟨f, hc, hf⟩ := hshaped
    rw [Tree.firstChild_eq hc]
    exact ⟨Tree.child_mem_located hl (hc ▸ .head _), isScope_of_isFunction hf⟩

/-- Before a scope is reached, nothing but `super` is declared in it. -/
lemma Declares.name_eq_of_before (h : t.IsScript) {before after : List (Located Nat)}
    (hb : t.located = before ++ S :: after) (hl : l ∈ before) (hd : l.Declares S e) :
    e.name = "super" := by
  rcases hd.suffix_or with hs | ⟨hname, -⟩
  · -- The scope would stand twice in the tree, as it comes before all nodes below it.
    have hmem : S ∈ before := Tree.mem_of_suffix hb hl hs
    have hnodup := Tree.nodup_located h.nodup
    rw [hb] at hnodup
    exact absurd rfl ((List.nodup_append.1 hnodup).2.2 S hmem S (.head _))
  · exact hname

end Located

/-! ### Names in one node -/

/-- Symbols of one node: they do not yield, and no two of them have the same name. -/
structure Registration.ArePlain (rs : List Registration) : Prop where
  yields : ∀ r ∈ rs, r.yields = false
  pairwise : rs.Pairwise fun r r' => sameWord r.entry.name r'.entry.name = false

namespace Located

variable {t : NumberedTree} {l : Located Nat}

open Registration

/-- A function expression registers `m`. -/
lemma registrations_of_isFunction (hf : l.node.IsFunction) :
    l.registrations = [{ l.declareImplicit "m" with yields := true }] := by
  obtain ⟨keyword, returns, hk⟩ := hf
  simp [registrations, hk]

lemma arePlain_singleton {r : Registration} (hr : r.yields = false) : ArePlain [r] :=
  ⟨fun _ hr' => List.mem_singleton.1 hr' ▸ hr, List.pairwise_singleton _ _⟩

lemma arePlain_declareOutside (l : Located Nat) (name : Token) (type : ScriptType) :
    ArePlain (l.declareOutside name type) := by
  unfold declareOutside
  cases l.parent? with
  | none => exact ⟨nofun, .nil⟩
  | some p => exact arePlain_singleton rfl

/-- A flattened name is longer than the name of the function. -/
lemma sameWord_flatName (hn : l.namespaceSegments ≠ []) (name : Token) :
    sameWord name.text (l.flatName name) = false := by
  have hlength : name.text.length < (l.flatName name).length := by
    rw [flatName, String.intercalate_append_of_ne_nil hn (by simp), String.intercalate_singleton,
      String.length_append, String.length_append]
    have hglue : "_".length = 1 := by decide
    omega
  by_contra hsame
  have hlower := sameWord_iff.1 (Bool.eq_true_of_not_eq_false hsame)
  have heq := congrArg String.length hlower
  rw [length_lower, length_lower] at heq
  omega

/-- Only function expressions register a symbol that yields. -/
lemma arePlain_registrations (h : t.IsScript) (hl : l ∈ t.located) (hf : ¬ l.node.IsFunction) :
    ArePlain l.registrations := by
  unfold registrations
  split
  case h_7 keyword returns hk => exact absurd ⟨keyword, returns, hk⟩ hf
  case h_9 | h_10 | h_11 | h_12 => exact arePlain_declareOutside l _ _
  case h_13 name _ _ _ =>
    unfold namespaceSymbols
    split
    · exact arePlain_declareOutside l _ _
    · exact ⟨nofun, .nil⟩
  case h_14 name _ _ _ _ _ hk _ =>
    rw [functionSymbols_eq h hl (by rw [hk]; rfl)]
    have houter (type : ScriptType) := arePlain_declareOutside l name type
    split
    case isTrue =>
      rw [List.append_nil]
      exact houter _
    case isFalse hn =>
      have hname := sameWord_flatName (namespaceSegments_ne_nil h hl hn) name
      refine ⟨fun r hr => ?_, List.pairwise_append.2
        ⟨(houter _).pairwise, List.pairwise_singleton _ _, fun r hr r' hr' => ?_⟩⟩
      · rcases List.mem_append.1 hr with hr | hr
        · exact (houter _).yields r hr
        · cases List.mem_singleton.1 hr
          rfl
      · obtain ⟨p, -, rfl⟩ := mem_declareOutside.1 hr
        cases List.mem_singleton.1 hr'
        exact hname
  case h_15 => exact ⟨nofun, .nil⟩
  all_goals exact arePlain_singleton rfl

/-- No node registers two symbols with the same name. -/
lemma pairwise_registrations (h : t.IsScript) (hl : l ∈ t.located) :
    l.registrations.Pairwise fun r r' => sameWord r.entry.name r'.entry.name = false := by
  by_cases hf : l.node.IsFunction
  · rw [registrations_of_isFunction hf]
    exact List.pairwise_singleton _ _
  · exact (arePlain_registrations h hl hf).pairwise

end Located

end BrighterCheck
