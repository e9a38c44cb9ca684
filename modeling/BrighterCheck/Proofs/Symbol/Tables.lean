import BrighterCheck.Proofs.Symbol.Scope
import BrighterCheck.Proofs.Rule.Validation
import Mathlib.Data.List.Induction

/-!
# What validation leaves in the symbol tables

The nodes of a tree register their symbols in the order in which a walk enters them, and of the
symbols with the same name in one scope the last one stays. `Tabulated t ls s` says so of the tables
`s` after the nodes `ls` of the tree `t`. Registering the symbols of the next node preserves it
(`Tabulated.step`), so it holds of the tables that validation leaves. That `m` yields to a symbol of
its name never shows: before a function expression is reached, only `super` can be in its table.
-/

namespace BrighterCheck

open Ascii

/-! ### Adding symbols -/

/-- A registration is made in the scope with the number `n`, under the given name. -/
def Registration.Writes (r : Registration) (n : Nat) (name : String) : Prop :=
  r.place.scope.node.id = n ∧ sameWord name r.entry.name = true

instance (r : Registration) (n : Nat) (name : String) : Decidable (r.Writes n name) :=
  inferInstanceAs (Decidable (_ ∧ _))

namespace Scopes

variable {s : Scopes} {n : Nat} {name : String} {e : SymbolEntry}

/-- Adds symbols without regard to those that yield. -/
def addAll (s : Scopes) (rs : List Registration) : Scopes :=
  rs.foldl (fun s r => s.add r.place r.entry) s

lemma table?_add (s : Scopes) (r : Registration) :
    (s.add r.place r.entry).table? n = if n = r.place.scope.node.id
      then some (((s.table? r.place.scope.node.id).getD
        (.empty (r.place.outerScope?.map (·.node.id)))).add r.entry)
      else s.table? n :=
  Dictionary.find?_insert s.tables r.place.scope.node.id n _

/-- Tables are made in the scopes of what is added. -/
lemma table?_addAll {rs : List Registration} (h : (s.addAll rs).table? n ≠ none) :
    s.table? n ≠ none ∨ ∃ r ∈ rs, r.place.scope.node.id = n := by
  induction rs generalizing s with
  | nil => exact .inl h
  | cons r rs ih =>
    have hrest : (s.add r.place r.entry).table? n ≠ none ∨ ∃ r ∈ rs, r.place.scope.node.id = n :=
      ih h
    rw [table?_add] at hrest
    rcases hrest with htable | ⟨r', hr', hn⟩
    · by_cases hn : n = r.place.scope.node.id
      · exact .inr ⟨r, .head _, hn.symm⟩
      · rw [if_neg hn] at htable
        exact .inl htable
    · exact .inr ⟨r', .tail _ hr', hn⟩

/-- An added symbol is found in its scope under its name, in whatever letter case. -/
lemma symbol?_add (s : Scopes) (r : Registration) :
    (s.add r.place r.entry).symbol? n name =
      if r.Writes n name then some r.entry else s.symbol? n name := by
  rw [symbol?, table?_add]
  by_cases hn : n = r.place.scope.node.id
  · subst hn
    rw [if_pos rfl, Option.bind_some, SymbolTable.get?_add]
    by_cases hname : sameWord name r.entry.name = true
    · rw [if_pos hname, if_pos ⟨rfl, hname⟩]
    · rw [if_neg hname, if_neg fun hw => hname hw.2, symbol?]
      cases s.table? r.place.scope.node.id with
      | none => rfl
      | some table => rfl
  · rw [if_neg hn, if_neg fun hw => hn hw.1.symm, symbol?]

lemma containsLocal_eq (s : Scopes) (l : Located Nat) (name : String) :
    s.containsLocal l name = (s.symbol? l.scope.node.id name).isSome := by
  unfold containsLocal symbol?
  cases s.table? l.scope.node.id with
  | none => rfl
  | some table => rfl

/-- Symbols that do not yield are added. -/
lemma foldl_register_of_yields {rs : List Registration} (hrs : ∀ r ∈ rs, r.yields = false) :
    rs.foldl register s = s.addAll rs := by
  induction rs generalizing s with
  | nil => rfl
  | cons r rs ih =>
    have hr : s.register r = s.add r.place r.entry := by
      simp [register, hrs r (.head _)]
    rw [List.foldl_cons, hr]
    exact ih fun r' hr' => hrs r' (.tail _ hr')

/-- Of several symbols with different names, the one with the name is found, or the earlier one. -/
lemma symbol?_addAll {rs : List Registration}
    (hrs : rs.Pairwise fun r r' => sameWord r.entry.name r'.entry.name = false) :
    (s.addAll rs).symbol? n name = some e ↔
      (∃ r ∈ rs, r.Writes n name ∧ r.entry = e) ∨
        s.symbol? n name = some e ∧ ∀ r ∈ rs, ¬ r.Writes n name := by
  induction rs generalizing s with
  | nil => simp [addAll]
  | cons r rs ih =>
    obtain ⟨hr, hrs⟩ := List.pairwise_cons.1 hrs
    have hstep := ih (s := s.add r.place r.entry) hrs
    rw [symbol?_add] at hstep
    refine hstep.trans ?_
    by_cases hw : r.Writes n name
    · -- None of the others has the name too, so nothing overwrites the symbol.
      have hothers : ∀ r' ∈ rs, ¬ r'.Writes n name := by
        intro r' hr' hw'
        have hsame : sameWord r.entry.name r'.entry.name = true :=
          sameWord_iff.2 ((sameWord_iff.1 hw.2).symm.trans (sameWord_iff.1 hw'.2))
        rw [hr r' hr'] at hsame
        cases hsame
      rw [if_pos hw]
      constructor
      · intro h
        rcases h with ⟨r', hr', hw', -⟩ | ⟨he, -⟩
        · exact absurd hw' (hothers r' hr')
        · exact .inl ⟨r, .head _, hw, Option.some.inj he⟩
      · intro h
        rcases h with ⟨r', hr', hw', he⟩ | ⟨-, hnone⟩
        · rcases List.mem_cons.1 hr' with rfl | hr'
          · exact .inr ⟨congrArg some he, hothers⟩
          · exact absurd hw' (hothers r' hr')
        · exact absurd hw (hnone r (.head _))
    · rw [if_neg hw]
      simp [hw]

end Scopes

/-! ### The last declaration -/

/-- Of the nodes that declare a symbol named `name` in the scope `S`, the last one declares `e`. -/
def LastDeclared (ls : List (Located Nat)) (S : Located Nat) (name : String) (e : SymbolEntry) :
    Prop :=
  ∃ before l after, ls = before ++ l :: after ∧ l.Declares S e ∧ sameWord name e.name = true ∧
    ∀ l' ∈ after, ∀ e', l'.Declares S e' → sameWord name e'.name = false

section LastDeclared

variable {ls : List (Located Nat)} {l S : Located Nat} {name : String} {e : SymbolEntry}

/-- The last of some nodes declares a symbol, or it is declared last before it. -/
lemma lastDeclared_concat :
    LastDeclared (ls ++ [l]) S name e ↔
      (l.Declares S e ∧ sameWord name e.name = true) ∨
        LastDeclared ls S name e ∧ ∀ e', l.Declares S e' → sameWord name e'.name = false := by
  constructor
  · intro h
    obtain ⟨before, l', after, he, hd, hname, hafter⟩ := h
    -- The declaring node is the last of all, or it stands among those before the last.
    rcases List.eq_nil_or_concat after with rfl | ⟨more, last, rfl⟩
    · obtain ⟨rfl, ⟨⟩⟩ := List.append_inj' he rfl
      exact .inl ⟨hd, hname⟩
    · rw [List.concat_eq_append, ← List.cons_append, ← List.append_assoc] at he
      obtain ⟨rfl, ⟨⟩⟩ := List.append_inj' he rfl
      refine .inr ⟨⟨before, l', more, rfl, hd, hname, fun u hu => ?_⟩, ?_⟩
      · exact hafter u (by simp [hu])
      · exact hafter l (by simp)
  · intro h
    rcases h with ⟨hd, hname⟩ | ⟨⟨before, l', after, rfl, hd, hname, hafter⟩, hlast⟩
    · exact ⟨ls, l, [], rfl, hd, hname, nofun⟩
    · refine ⟨before, l', after ++ [l], by simp, hd, hname, fun u hu => ?_⟩
      rcases List.mem_append.1 hu with hu | hu
      · exact hafter u hu
      · cases List.mem_singleton.1 hu
        exact hlast

/-- Of nodes that declare a symbol, there is a last one. -/
lemma exists_lastDeclared_iff :
    (∃ e, LastDeclared ls S name e) ↔
      ∃ l ∈ ls, ∃ e, l.Declares S e ∧ sameWord name e.name = true := by
  constructor
  · intro h
    obtain ⟨e, before, l, after, rfl, hd, hname, -⟩ := h
    exact ⟨l, by simp, e, hd, hname⟩
  · intro h
    induction ls using List.reverseRecOn with
    | nil => exact absurd h nofun
    | append_singleton ls l ih =>
      by_cases hl : ∃ e, l.Declares S e ∧ sameWord name e.name = true
      · obtain ⟨e, hd, hname⟩ := hl
        exact ⟨e, lastDeclared_concat.2 (.inl ⟨hd, hname⟩)⟩
      · have hnone : ∀ e', l.Declares S e' → sameWord name e'.name = false := by
          intro e' hd
          by_contra hname
          exact hl ⟨e', hd, Bool.eq_true_of_not_eq_false hname⟩
        obtain ⟨u, hu, e, hd, hname⟩ := h
        rcases List.mem_append.1 hu with hu | hu
        · obtain ⟨e, hlast⟩ := ih ⟨u, hu, e, hd, hname⟩
          exact ⟨e, lastDeclared_concat.2 (.inr ⟨hlast, hnone⟩)⟩
        · cases List.mem_singleton.1 hu
          exact absurd ⟨e, hd, hname⟩ hl

end LastDeclared

/-! ### Tables after some nodes -/

/--
The tables `s` hold what the nodes `ls` of the tree `t` declare: there are tables for scopes only, a
scope has a symbol under a name if one of the nodes declares one there, and then its name, range and
type are those of the last such declaration.
-/
structure Tabulated (t : NumberedTree) (ls : List (Located Nat)) (s : Scopes) : Prop where
  isScope : ∀ n, s.table? n ≠ none → ∃ S ∈ t.located, S.node.id = n ∧ S.isScope = true
  isSome_iff : ∀ S ∈ t.located, ∀ name, (s.symbol? S.node.id name).isSome = true ↔
    ∃ l ∈ ls, ∃ e, l.Declares S e ∧ sameWord name e.name = true
  eq_some_iff : ∀ S ∈ t.located, ∀ name e,
    s.symbol? S.node.id name = some e ↔ LastDeclared ls S name e

namespace Tabulated

variable {t : NumberedTree} {ls after : List (Located Nat)} {l S : Located Nat} {s : Scopes}
  {name : String} {e : SymbolEntry}

/-- There is a symbol under a name if one is declared last under it. -/
lemma of_lastDeclared
    (hscope : ∀ n, s.table? n ≠ none → ∃ S ∈ t.located, S.node.id = n ∧ S.isScope = true)
    (hlast : ∀ S ∈ t.located, ∀ name e,
      s.symbol? S.node.id name = some e ↔ LastDeclared ls S name e) : Tabulated t ls s where
  isScope := hscope
  isSome_iff S hS name := by
    rw [Option.isSome_iff_exists, ← exists_lastDeclared_iff]
    exact exists_congr (hlast S hS name)
  eq_some_iff := hlast

/-- Before the first node, there are no tables. -/
lemma empty : Tabulated t [] .empty :=
  of_lastDeclared (fun _ hn => absurd rfl hn) fun S _ name e =>
    iff_of_false nofun fun h => by
      obtain ⟨before, l, after, he, -⟩ := h
      cases List.append_eq_nil_iff.1 he.symm |>.2

/-- What a node writes into a table is what it declares in the scope. -/
lemma exists_writes_iff (h : t.IsScript) (hl : l ∈ t.located) (hS : S ∈ t.located) :
    (∃ r ∈ l.registrations, r.Writes S.node.id name ∧ r.entry = e) ↔
      l.Declares S e ∧ sameWord name e.name = true := by
  constructor
  · intro hr
    obtain ⟨r, hr, ⟨hid, hname⟩, rfl⟩ := hr
    have hd := (Located.declares_iff h hl).2 ⟨r, hr, rfl, rfl⟩
    cases Tree.eq_of_mem_located h.nodup (hd.isScope h hl).1 hS hid
    exact ⟨hd, hname⟩
  · intro hd
    obtain ⟨hd, hname⟩ := hd
    obtain ⟨r, hr, rfl, rfl⟩ := (Located.declares_iff h hl).1 hd
    exact ⟨r, hr, ⟨rfl, hname⟩, rfl⟩

/-- At a function expression, nothing is in the table under `m` that its own `m` could yield to. -/
lemma symbol?_receiver (h : t.IsScript) (hls : t.located = ls ++ l :: after)
    (hs : Tabulated t ls s) : s.symbol? l.node.id "m" = none := by
  have hl : l ∈ t.located := by simp [hls]
  by_contra hsome
  obtain ⟨u, hu, e, hd, hname⟩ :=
    (hs.isSome_iff l hl "m").1 (Option.isSome_iff_ne_none.2 hsome)
  rw [hd.name_eq_of_before h hls hu] at hname
  exact absurd hname (by decide)

/-- The next node registers its symbols as if none of them yielded. -/
lemma foldl_register_eq (h : t.IsScript) (hls : t.located = ls ++ l :: after)
    (hs : Tabulated t ls s) :
    l.registrations.foldl Scopes.register s = s.addAll l.registrations := by
  by_cases hf : l.node.IsFunction
  · -- Its `m` would yield to an `m` in its own table, but there can be none yet.
    have hnone : s.containsLocal l "m" = false := by
      rw [Scopes.containsLocal_eq, Located.scope_of_isFunction hf, symbol?_receiver h hls hs]
      rfl
    rw [Located.registrations_of_isFunction hf]
    show Scopes.register s _ = _
    rw [Scopes.register, Bool.true_and]
    exact if_neg (Bool.eq_false_iff.1 hnone)
  · have hl : l ∈ t.located := by simp [hls]
    exact Scopes.foldl_register_of_yields (Located.arePlain_registrations h hl hf).yields

/-- Registering the symbols of the next node keeps the tables as they should be. -/
theorem step (h : t.IsScript) (hls : t.located = ls ++ l :: after) (hs : Tabulated t ls s) :
    Tabulated t (ls ++ [l]) (l.registrations.foldl Scopes.register s) := by
  have hl : l ∈ t.located := by simp [hls]
  rw [foldl_register_eq h hls hs]
  -- Now the symbols of the node are added one by one, under names that are all different.
  refine of_lastDeclared (fun n hn => ?_) fun S hS name e => ?_
  · rcases Scopes.table?_addAll hn with hn | ⟨r, hr, rfl⟩
    · exact hs.isScope n hn
    · have hd := Located.declares_of_mem_registrations h hl hr
      obtain ⟨hmem, hscope⟩ := hd.isScope h hl
      exact ⟨_, hmem, rfl, hscope⟩
  · rw [Scopes.symbol?_addAll (Located.pairwise_registrations h hl), lastDeclared_concat,
      hs.eq_some_iff S hS, exists_writes_iff h hl hS]
    -- What was declared before stays exactly where the node declares nothing under the name.
    refine or_congr_right (and_congr_right fun _ => ?_)
    constructor
    · intro hnone e' hd
      by_contra hname
      obtain ⟨r, hr, hw, -⟩ :=
        (exists_writes_iff h hl hS).2 ⟨hd, Bool.eq_true_of_not_eq_false hname⟩
      exact hnone r hr hw
    · intro hnone r hr hw
      obtain ⟨hd, hname⟩ := (exists_writes_iff h hl hS).1 ⟨r, hr, hw, rfl⟩
      rw [hnone r.entry hd] at hname
      cases hname

/-- Registering the symbols of all nodes in pre-order leaves the last declaration of each name. -/
theorem run (h : t.IsScript) (hls : t.located = ls ++ after) :
    Tabulated t ls ((ls.flatMap Located.registrations).foldl Scopes.register .empty) := by
  induction ls using List.reverseRecOn generalizing after with
  | nil => exact empty
  | append_singleton ls l ih =>
    rw [List.append_assoc] at hls
    rw [List.flatMap_append, List.foldl_append, List.flatMap_singleton]
    exact step h hls (ih hls)

end Tabulated

namespace ParsedFile

/--
Whatever tables a file had before, validation leaves in them the last declaration of each name in
each scope, in the order of the nodes.
-/
theorem tabulated_validate {source : String} {f : ParsedFile} (h : ofSource source = .ok f)
    (scopes : Scopes) (typedef : Bool) (sink : Sink) :
    Tabulated f.tree f.tree.located
      (Analysis.validate ⟨f.tree, scopes⟩ typedef sink).1.scopes := by
  rw [Analysis.validate_eq]
  exact Tabulated.run (isScript h) (List.append_nil _).symm

/--
A function in a namespace, in which a parameter and a variable are declared twice. The root has the
function under its flattened name, and in the function the last of the variables stays.
-/
theorem tabulated_validate_of_namespace :
    ∃ f, ofSource "namespace a.b\nsub run(m, M)\nx = 1\nX = \"2\"\nend sub\nend namespace" =
        .ok f ∧
      ∀ scopes typedef sink,
        let s := (Analysis.validate ⟨f.tree, scopes⟩ typedef sink).1.scopes
        Tabulated f.tree f.tree.located s ∧
          (s.symbol? 0 "A_B_RUN").map (fun e => (e.name, e.range, e.type.display)) =
            some ("a_b_run", some ⟨⟨1, 4⟩, ⟨1, 7⟩⟩,
              "sub a_b_run(m as dynamic, M as dynamic) as void") ∧
          (s.symbol? 10 "x").map (fun e => (e.name, e.range, e.type.display)) =
            some ("X", some ⟨⟨3, 0⟩, ⟨3, 1⟩⟩, "string") := by
  have hread : (ofSource
      "namespace a.b\nsub run(m, M)\nx = 1\nX = \"2\"\nend sub\nend namespace").toOption.any
      fun f =>
        let s := (f.tree.located.flatMap Located.registrations).foldl Scopes.register .empty
        (s.symbol? 0 "A_B_RUN").map (fun e => (e.name, e.range, e.type.display)) =
            some ("a_b_run", some ⟨⟨1, 4⟩, ⟨1, 7⟩⟩,
              "sub a_b_run(m as dynamic, M as dynamic) as void") ∧
          (s.symbol? 10 "x").map (fun e => (e.name, e.range, e.type.display)) =
            some ("X", some ⟨⟨3, 0⟩, ⟨3, 1⟩⟩, "string") := by
    decide +kernel
  obtain ⟨f, hf, hread⟩ := exists_of_any hread
  refine ⟨f, hf, fun scopes typedef sink => ⟨tabulated_validate hf scopes typedef sink, ?_⟩⟩
  rw [Analysis.validate_eq]
  exact of_decide_eq_true hread

end ParsedFile

end BrighterCheck
