import BrighterCheck.Proofs.Rule.Validation
import BrighterCheck.Proofs.Symbol.Scope
import BrighterCheck.Proofs.Text.Dictionary
import Mathlib.Data.List.Induction

/-!
# Look-up in nested scopes

A table keeps the number of the scope around its own, as it was when the table was made; a scope
without a table is left by going up the tree. Whatever is cleared, added or validated, the tables
fit the tree (`Scopes.Fits`), and both ways out of a scope lead to the nearest one strictly around
it (`Scopes.Fits.next?_eq`). So a search asks the scopes around a node from the innermost one
outwards and comes to an end (`Scopes.Fits.searchWithin_eq`).
-/

namespace BrighterCheck

open Ascii

/-! ### Scopes around a node -/

namespace Located

section Outwards

variable {ι : Type}

/-- The node `t` and its ancestors, each in its place, from `t` outwards. -/
def outwardsFrom (t : Tree ι) : List (Tree ι) → List (Located ι)
  | [] => [⟨t, []⟩]
  | parent :: above => ⟨t, parent :: above⟩ :: outwardsFrom parent above

/-- The scopes around a node, innermost first. A node that is a scope is the first of them. -/
def scopesAround (l : Located ι) : List (Located ι) :=
  (outwardsFrom l.node l.ancestors).filter isScope

/-- The nearest scope strictly around a node. -/
def enclosingScope? (l : Located ι) : Option (Located ι) :=
  l.parent?.bind fun parent => parent.scopesAround.head?

end Outwards

variable {t : NumberedTree} {l : Located Nat}

/-- A node that is a scope is its own scope. -/
lemma scope_of_isScope (hs : l.isScope = true) : l.scope = l := by
  obtain ⟨node, ancestors⟩ := l
  cases ancestors with
  | nil => rfl
  | cons parent above => exact if_pos hs

lemma scope_mem_located (hl : l ∈ t.located) : l.scope ∈ t.located :=
  mem_located_of_suffix hl (scope_suffix l)

lemma length_scope_ancestors_le (l : Located Nat) : l.scope.ancestors.length ≤ l.ancestors.length :=
  Nat.le_of_succ_le_succ (scope_suffix l).length_le

/-- The scopes around a node are its own scope and those around the parent of that. -/
lemma scopesAround_eq (h : t.IsScript) (hl : l ∈ t.located) :
    l.scopesAround = l.scope :: (l.scope.parent?.map scopesAround).getD [] := by
  obtain ⟨node, ancestors⟩ := l
  induction ancestors generalizing node with
  | nil =>
    have hs : isScope ⟨node, []⟩ = true := isScope_scope h hl
    exact List.filter_cons_of_pos hs
  | cons parent above ih =>
    by_cases hs : isScope ⟨node, parent :: above⟩ = true
    · rw [scope_of_isScope hs]
      exact List.filter_cons_of_pos hs
    · have hscope : scope ⟨node, parent :: above⟩ = scope ⟨parent, above⟩ := if_neg hs
      rw [hscope, ← ih parent (Tree.parent_mem_located hl rfl).1]
      exact List.filter_cons_of_neg hs

/-- The nearest scope strictly around a node is the scope of its parent. -/
lemma enclosingScope?_eq (h : t.IsScript) (hl : l ∈ t.located) :
    l.enclosingScope? = l.parent?.map scope := by
  obtain ⟨node, ancestors⟩ := l
  cases ancestors with
  | nil => rfl
  | cons parent above =>
    have hp := scopesAround_eq h (Tree.parent_mem_located hl rfl).1
    exact congrArg List.head? hp

/-- A node has as many scopes around it as its own scope. -/
lemma scopesAround_scope (h : t.IsScript) (hl : l ∈ t.located) :
    l.scope.scopesAround = l.scopesAround := by
  rw [scopesAround_eq h hl, scopesAround_eq h (scope_mem_located hl),
    scope_of_isScope (isScope_scope h hl)]

lemma root_eq (hl : l ∈ t.located) : l.root = ⟨t, []⟩ := by
  have hroot := Tree.node_eq_of_ancestors_eq_nil (mem_located_of_suffix hl (root_suffix l)) rfl
  rw [← hroot]
  rfl

/-- A node is found under its number. -/
lemma find?_eq (h : t.IsScript) (hl : l ∈ t.located) : t.find? l.node.id = some l := by
  obtain ⟨l', hl'⟩ : ∃ l', t.located.find? (fun m => decide (m.node.id = l.node.id)) = some l' :=
    Option.isSome_iff_exists.1 (List.find?_isSome.2 ⟨l, hl, decide_eq_true rfl⟩)
  have hid := List.find?_some hl'
  have hmem := List.mem_of_find?_eq_some hl'
  exact hl'.trans
    (congrArg some (Tree.eq_of_mem_located h.nodup hmem hl (of_decide_eq_true hid)))

end Located

/-! ### Tables that fit the tree -/

/-- The symbols of a table stand under their lowered names in increasing order. -/
structure SymbolTable.IsKeyed (table : SymbolTable) : Prop where
  ordered : table.symbols.Ordered
  key_eq : ∀ entry ∈ table.symbols, entry.1 = lower entry.2.name

namespace SymbolTable

variable {table : SymbolTable} {name : String} {e : SymbolEntry}

lemma isKeyed_empty (parent : Option Nat) : (empty parent).IsKeyed :=
  ⟨.nil, nofun⟩

lemma IsKeyed.add (h : table.IsKeyed) (e : SymbolEntry) : (table.add e).IsKeyed where
  ordered := h.ordered.insert _ _
  key_eq entry he := by
    rcases Dictionary.mem_of_mem_insert he with rfl | he
    · rfl
    · exact h.key_eq entry he

lemma entries_add_ne_nil (table : SymbolTable) (e : SymbolEntry) : (table.add e).entries ≠ [] :=
  fun h => Dictionary.insert_ne_nil (List.map_eq_nil_iff.1 h)

/-- What is found under a name is the symbol that has it, in whatever letter case. -/
lemma IsKeyed.get?_eq_some_iff (h : table.IsKeyed) :
    table.get? name = some e ↔ e ∈ table.entries ∧ sameWord name e.name = true := by
  rw [get?, h.ordered.find?_eq_some_iff, sameWord_iff]
  constructor
  · intro he
    exact ⟨List.mem_map_of_mem he, h.key_eq _ he⟩
  · intro he
    obtain ⟨he, hname⟩ := he
    obtain ⟨entry, hentry, rfl⟩ := List.mem_map.1 he
    rw [hname, ← h.key_eq entry hentry]
    exact hentry

end SymbolTable

namespace Scopes

/-- The table of a scope holds a symbol of the given name, in whatever letter case. -/
def Holds (s : Scopes) (S : Located Nat) (name : String) (e : SymbolEntry) : Prop :=
  ∃ table, s.table? S.node.id = some table ∧ e ∈ table.entries ∧ sameWord name e.name = true

/--
The tables fit the tree `t`: each belongs to a scope of the tree and names the nearest scope
strictly around it, and it has symbols, each in the place of its lowered name.
-/
structure Fits (t : NumberedTree) (s : Scopes) : Prop where
  owner : ∀ n table, s.table? n = some table → ∃ S ∈ t.located, S.isScope = true ∧ S.node.id = n ∧
    table.parent = S.enclosingScope?.map fun outer => outer.node.id
  isKeyed : ∀ n table, s.table? n = some table → table.IsKeyed
  ne_nil : ∀ n table, s.table? n = some table → table.entries ≠ []

namespace Fits

variable {t : NumberedTree} {s : Scopes} {l S : Located Nat} {name : String} {e : SymbolEntry}

lemma empty : Fits t .empty :=
  ⟨nofun, nofun, nofun⟩

/-- The table that a symbol is added to was there before, or it is made for the scope. -/
lemma exists_table?_add (h : t.IsScript) (hs : s.Fits t) (hmem : l.scope ∈ t.located)
    (e : SymbolEntry) :
    ∃ before : SymbolTable, before.IsKeyed ∧
      before.parent = l.scope.enclosingScope?.map (fun outer => outer.node.id) ∧
      ∀ n, (s.add l e).table? n =
        if n = l.scope.node.id then some (before.add e) else s.table? n := by
  have htable (n : Nat) : (s.add l e).table? n = if n = l.scope.node.id
      then some (((s.table? l.scope.node.id).getD (.empty (l.outerScope?.map (·.node.id)))).add e)
      else s.table? n :=
    Dictionary.find?_insert s.tables l.scope.node.id n _
  cases ht : s.table? l.scope.node.id with
  | none =>
    refine ⟨.empty (l.outerScope?.map (·.node.id)), SymbolTable.isKeyed_empty _, ?_, fun n => ?_⟩
    · rw [Located.enclosingScope?_eq h hmem]
      rfl
    · rw [htable, ht]
      rfl
  | some table =>
    -- The owner has the number of the scope, so it is the scope.
    obtain ⟨S, hS, -, hid, hparent⟩ := hs.owner _ _ ht
    cases Tree.eq_of_mem_located h.nodup hS hmem hid
    refine ⟨table, hs.isKeyed _ _ ht, hparent, fun n => ?_⟩
    rw [htable, ht]
    rfl

/-- The step: a symbol that is added to a scope of the tree leaves the tables fitting. -/
theorem add (h : t.IsScript) (hs : s.Fits t) (hmem : l.scope ∈ t.located)
    (hscope : l.scope.isScope = true) (e : SymbolEntry) : (s.add l e).Fits t := by
  obtain ⟨before, hkeyed, hparent, htable⟩ := hs.exists_table?_add h hmem e
  have hcases {n : Nat} {table : SymbolTable} (hn : (s.add l e).table? n = some table) :
      l.scope.node.id = n ∧ before.add e = table ∨ s.table? n = some table := by
    rw [htable] at hn
    split at hn
    case isTrue he => exact .inl ⟨he.symm, Option.some.inj hn⟩
    case isFalse => exact .inr hn
  constructor
  case owner =>
    intro n table hn
    rcases hcases hn with ⟨hid, rfl⟩ | hn
    · exact ⟨l.scope, hmem, hscope, hid, hparent⟩
    · exact hs.owner n table hn
  case isKeyed =>
    intro n table hn
    rcases hcases hn with ⟨-, rfl⟩ | hn
    · exact hkeyed.add e
    · exact hs.isKeyed n table hn
  case ne_nil =>
    intro n table hn
    rcases hcases hn with ⟨-, rfl⟩ | hn
    · exact before.entries_add_ne_nil e
    · exact hs.ne_nil n table hn

lemma register (h : t.IsScript) (hs : s.Fits t) {r : Registration}
    (hmem : r.place.scope ∈ t.located) (hscope : r.place.scope.isScope = true) :
    (s.register r).Fits t := by
  unfold Scopes.register
  split
  case isTrue => exact hs
  case isFalse => exact hs.add h hmem hscope r.entry

/-- Registrations in scopes of the tree leave the tables fitting. -/
lemma foldl_register (h : t.IsScript) (hs : s.Fits t) {rs : List Registration}
    (hrs : ∀ r ∈ rs, r.place.scope ∈ t.located ∧ r.place.scope.isScope = true) :
    (rs.foldl Scopes.register s).Fits t := by
  induction rs generalizing s with
  | nil => exact hs
  | cons r rs ih =>
    obtain ⟨hmem, hscope⟩ := hrs r (.head _)
    exact ih (hs.register h hmem hscope) fun r' hr' => hrs r' (.tail _ hr')

/-- The nodes of a tree register their symbols in scopes of the tree. -/
lemma registrations (h : t.IsScript) :
    ((t.located.flatMap Located.registrations).foldl Scopes.register .empty).Fits t := by
  refine empty.foldl_register h fun r hr => ?_
  obtain ⟨l, hl, hr⟩ := List.mem_flatMap.1 hr
  exact (Located.declares_of_mem_registrations h hl hr).isScope h hl

/-! ### Searching -/

/-- Both ways out of a scope lead to the nearest scope strictly around it. -/
theorem next?_eq (h : t.IsScript) (hs : s.Fits t) (hS : S ∈ t.located) :
    s.next? S = S.enclosingScope? := by
  unfold next?
  split
  case h_1 table ht =>
    -- The parent of the table is the number of that scope, under which it is found again.
    obtain ⟨S', hS', -, hid, hparent⟩ := hs.owner _ _ ht
    cases Tree.eq_of_mem_located h.nodup hS' hS hid
    rw [hparent, Located.root_eq hS, Located.enclosingScope?_eq h hS]
    cases hp : S.parent? with
    | none => rfl
    | some p =>
      have hmem := Located.mem_located_of_suffix hS (Located.parent?_suffix hp)
      exact Located.find?_eq h (Located.scope_mem_located hmem)
  case h_2 => exact (Located.enclosingScope?_eq h hS).symm

lemma searchWithin_none (s : Scopes) (name : String) (n : Nat) :
    s.searchWithin name n none = some none := by
  cases n <;> rfl

/-- A search asks the scopes around a scope one after the other, and comes to an end. -/
theorem searchWithin_eq (h : t.IsScript) (hs : s.Fits t) (hS : S ∈ t.located)
    (hscope : S.isScope = true) {n : Nat} (hn : S.ancestors.length < n) :
    s.searchWithin name n (some S) =
      some (S.scopesAround.findSome? fun T => s.symbol? T.node.id name) := by
  induction n generalizing S with
  | zero => exact absurd hn (Nat.not_lt_zero _)
  | succ n ih =>
    rw [Located.scopesAround_eq h hS, Located.scope_of_isScope hscope, List.findSome?_cons,
      searchWithin]
    cases s.symbol? S.node.id name with
    | some e => rfl
    | none =>
      rw [hs.next?_eq h hS, Located.enclosingScope?_eq h hS]
      cases hp : S.parent? with
      | none => exact searchWithin_none s name n
      | some p =>
        -- The scope of the parent is farther out, so that fewer steps suffice from there.
        have hmem := Located.mem_located_of_suffix hS (Located.parent?_suffix hp)
        have hlength : p.selfAndAncestors.length ≤ S.ancestors.length := by
          obtain ⟨node, ancestors⟩ := S
          cases ancestors with
          | nil => cases hp
          | cons parent above =>
            cases hp
            exact Nat.le_refl _
        have hlt : p.scope.ancestors.length < n :=
          (p.length_scope_ancestors_le.trans_lt hlength).trans_le (Nat.le_of_lt_succ hn)
        have hrest := ih (Located.scope_mem_located hmem) (Located.isScope_scope h hmem) hlt
        rw [Located.scopesAround_scope h hmem] at hrest
        exact hrest

lemma symbol?_eq_some_iff (hs : s.Fits t) :
    s.symbol? S.node.id name = some e ↔ s.Holds S name e := by
  unfold symbol? Holds
  cases ht : s.table? S.node.id with
  | none => simp
  | some table => simpa using (hs.isKeyed _ _ ht).get?_eq_some_iff

lemma symbol?_eq_none_iff (hs : s.Fits t) :
    s.symbol? S.node.id name = none ↔ ∀ e, ¬ s.Holds S name e := by
  simp only [Option.eq_none_iff_forall_ne_some, ne_eq, hs.symbol?_eq_some_iff]

/-- A search from the scope of a node asks the scopes around the node, innermost first. -/
lemma searchWithin_scope_eq (h : t.IsScript) (hs : s.Fits t) (hl : l ∈ t.located) {n : Nat}
    (hn : l.ancestors.length < n) :
    s.searchWithin name n (some l.scope) =
      some (l.scopesAround.findSome? fun T => s.symbol? T.node.id name) := by
  rw [← Located.scopesAround_scope h hl]
  exact hs.searchWithin_eq h (Located.scope_mem_located hl) (Located.isScope_scope h hl)
    (l.length_scope_ancestors_le.trans_lt hn)

lemma lookup_eq (h : t.IsScript) (hs : s.Fits t) (hl : l ∈ t.located) :
    s.lookup l name = l.scopesAround.findSome? fun T => s.symbol? T.node.id name := by
  rw [lookup, hs.searchWithin_scope_eq h hl (Nat.lt_succ_self _)]
  rfl

/-- Every longer search from the scope of a node ends with the answer of the look-up. -/
lemma searchWithin_scope (h : t.IsScript) (hs : s.Fits t) (hl : l ∈ t.located) {n : Nat}
    (hn : l.ancestors.length < n) :
    s.searchWithin name n (some l.scope) = some (s.lookup l name) := by
  rw [hs.searchWithin_scope_eq h hl hn, hs.lookup_eq h hl]

end Fits

end Scopes

/-! ### Histories -/

namespace Analysis

/-- What can be done to the symbol tables of a tree. -/
inductive Step where
  | clear
  | add (l : Located Nat) (e : SymbolEntry)
  | validate (typedef : Bool) (sink : Sink)

/-- The analysis after a step. -/
def perform (a : Analysis) : Step → Analysis
  | .clear => a.clearSymbols
  | .add l e => a.addSymbol l e
  | .validate typedef sink => (a.validate typedef sink).1

/-- The analysis of a tree after some steps, without symbols at first. -/
def afterAll (t : NumberedTree) (steps : List Step) : Analysis :=
  steps.foldl perform (ofTree t)

variable {t : NumberedTree} {steps : List Step}

/-- The step: the tree stays as it is, and the tables fit it. -/
lemma fits_perform (h : t.IsScript) {a : Analysis} (htree : a.tree = t) (hs : a.scopes.Fits t)
    (step : Step) (hstep : ∀ l e, step = .add l e → l ∈ t.located) :
    (a.perform step).tree = t ∧ (a.perform step).scopes.Fits t := by
  cases step with
  | clear => exact ⟨htree, .empty⟩
  | add l e =>
    have hl := hstep l e rfl
    exact ⟨htree, hs.add h (Located.scope_mem_located hl) (Located.isScope_scope h hl) e⟩
  | validate typedef sink =>
    rw [perform, validate_eq, htree]
    exact ⟨rfl, .registrations h⟩

/-- The run: after any steps the tree is the same, and the tables fit it. -/
lemma fits_afterAll (h : t.IsScript) (hsteps : ∀ l e, .add l e ∈ steps → l ∈ t.located) :
    (afterAll t steps).tree = t ∧ (afterAll t steps).scopes.Fits t := by
  induction steps using List.reverseRecOn with
  | nil => exact ⟨rfl, .empty⟩
  | append_singleton steps step ih =>
    obtain ⟨htree, hs⟩ := ih fun l e hmem => hsteps l e (List.mem_append_left _ hmem)
    rw [afterAll, List.foldl_concat]
    exact fits_perform h htree hs step fun l e he =>
      hsteps l e (List.mem_append_right _ (List.mem_singleton.2 he.symm))

end Analysis

namespace ParsedFile

/--
Whatever is done to the symbol tables of a file, only scopes have tables, each with symbols and with
the nearest scope strictly around its own as its parent. Going by the parents of tables and going up
the tree lead to the same scopes. A look-up at a node ends, and answers what the innermost scope
around the node holds under the name of those that hold anything under it.
-/
theorem scoping_afterAll {source : String} {f : ParsedFile} (h : ofSource source = .ok f)
    {steps : List Analysis.Step} (hsteps : ∀ l e, .add l e ∈ steps → l ∈ f.tree.located) :
    let s := (Analysis.afterAll f.tree steps).scopes
    (Analysis.afterAll f.tree steps).tree = f.tree ∧
      (∀ n table, s.table? n = some table → table.entries ≠ [] ∧
        ∃ S ∈ f.tree.located, S.isScope = true ∧ S.node.id = n ∧
          table.parent = S.enclosingScope?.map fun outer => outer.node.id) ∧
      (∀ S ∈ f.tree.located, s.next? S = S.enclosingScope?) ∧
      ∀ l ∈ f.tree.located, ∀ name,
        (∀ n, l.ancestors.length < n →
          s.searchWithin name n (some l.scope) = some (s.lookup l name)) ∧
        (∀ e, s.lookup l name = some e ↔
          ∃ inner S outer, l.scopesAround = inner ++ S :: outer ∧ s.Holds S name e ∧
            ∀ T ∈ inner, ∀ e', ¬ s.Holds T name e') ∧
        (s.lookup l name = none ↔ ∀ S ∈ l.scopesAround, ∀ e, ¬ s.Holds S name e) := by
  intro s
  have hscript := isScript h
  obtain ⟨htree, hs⟩ : _ ∧ s.Fits f.tree := Analysis.fits_afterAll hscript hsteps
  refine ⟨htree, fun n table ht => ⟨hs.ne_nil n table ht, hs.owner n table ht⟩,
    fun S hS => hs.next?_eq hscript hS, fun l hl name => ⟨fun n hn => ?_, fun e => ?_, ?_⟩⟩
  · exact hs.searchWithin_scope hscript hl hn
  · rw [hs.lookup_eq hscript hl, List.findSome?_eq_some_iff]
    simp only [hs.symbol?_eq_some_iff, hs.symbol?_eq_none_iff]
  · rw [hs.lookup_eq hscript hl, List.findSome?_eq_none_iff]
    simp only [hs.symbol?_eq_none_iff]

/--
A symbol is added at the root of a file, then the file is validated. The catch clause has a table of
its own; what is not in it is found in the table of the function around it.
-/
theorem scoping_afterAll_of_catch :
    ∃ f, ofSource "sub a(x)\ntry\ny = 1\ncatch e\nend try\nend sub" = .ok f ∧
      ∃ l ∈ f.tree.located, l.node.kind.display = "Catch" ∧ ∀ e typedef sink,
        let s := (Analysis.afterAll f.tree [.add ⟨f.tree, []⟩ e, .validate typedef sink]).scopes
        (∀ S ∈ f.tree.located, s.next? S = S.enclosingScope?) ∧
          (s.table? l.node.id).map (fun table => (table.parent, table.entries.map (·.name))) =
            some (some 9, ["e"]) ∧
          ∃ found, s.lookup l "Y" = some found ∧ found.name = "y" ∧
            found.range = some ⟨⟨2, 0⟩, ⟨2, 1⟩⟩ ∧
            ∃ inner S outer, l.scopesAround = inner ++ S :: outer ∧ s.Holds S "Y" found ∧
              ∀ T ∈ inner, ∀ e', ¬ s.Holds T "Y" e' := by
  have hread : (ofSource "sub a(x)\ntry\ny = 1\ncatch e\nend try\nend sub").toOption.any fun f =>
      let s := (f.tree.located.flatMap Located.registrations).foldl Scopes.register .empty
      f.tree.located.any fun l => l.node.kind.display = "Catch" ∧
        (s.table? l.node.id).map (fun table => (table.parent, table.entries.map (·.name))) =
          some (some 9, ["e"]) ∧
        (s.lookup l "Y").map (fun e => (e.name, e.range)) =
          some ("y", some ⟨⟨2, 0⟩, ⟨2, 1⟩⟩) := by
    decide +kernel
  obtain ⟨f, hf, hread⟩ := exists_of_any hread
  obtain ⟨l, hl, hread⟩ := List.any_eq_true.1 hread
  obtain ⟨hkind, htable, hlookup⟩ := of_decide_eq_true hread
  refine ⟨f, hf, l, hl, hkind, fun e typedef sink => ?_⟩
  have hsteps : ∀ l' e', Analysis.Step.add l' e' ∈
      [.add ⟨f.tree, []⟩ e, .validate typedef sink] → l' ∈ f.tree.located := by
    intro l' e' hmem
    rcases List.mem_cons.1 hmem with hadd | hmem
    · cases hadd
      exact Tree.root_mem_located
    · cases List.mem_singleton.1 hmem
  obtain ⟨-, -, hnext, hlookups⟩ := scoping_afterAll hf hsteps
  -- The validation starts afresh, so that the symbol that was added before is gone.
  have hscopes : (Analysis.afterAll f.tree [.add ⟨f.tree, []⟩ e, .validate typedef sink]).scopes =
      (f.tree.located.flatMap Located.registrations).foldl Scopes.register .empty :=
    congrArg (fun a => Analysis.scopes a.1) (Analysis.validate_eq ..)
  obtain ⟨found, hfound, hplace⟩ := Option.map_eq_some_iff.1 hlookup
  obtain ⟨hname, hrange⟩ := Prod.mk.inj hplace
  rw [← hscopes] at htable hfound
  exact ⟨hnext, htable, found, hfound, hname, hrange, ((hlookups l hl "Y").2.1 found).1 hfound⟩

end ParsedFile

end BrighterCheck
