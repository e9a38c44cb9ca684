import BrighterCheck.Proofs.Rule.LetterCase
import BrighterCheck.Proofs.Symbol.Relabel

/-!
# Symbols in any letter case

The tables of a lowered tree belong to the same scopes, and hold entries with the same keys and the
same ranges. What is compared is the outline of the tables: the spelling of the names and the types
are left out.
-/

namespace BrighterCheck

open Ascii Relabel

namespace Dictionary

variable {κ α β : Type} [LT κ] [DecidableLT κ] [DecidableEq κ] (f : α → β)

/-- Values can be mapped before or after one is stored. -/
lemma map_insert (key : κ) (value : α) (d : Dictionary κ α) :
    (insert key value d).map (Prod.map id f) = insert key (f value) (d.map (Prod.map id f)) := by
  induction d with
  | nil => rfl
  | cons entry rest ih =>
    obtain ⟨k, v⟩ := entry
    simp only [insert, List.map_cons, Prod.map_apply, id_eq]
    split
    case isTrue => rfl
    case isFalse =>
      split
      case isTrue => rfl
      case isFalse => rw [← ih]; rfl

omit [LT κ] [DecidableLT κ] in
lemma find?_map (key : κ) (d : Dictionary κ α) :
    find? (d.map (Prod.map id f)) key = (d.find? key).map f := by
  induction d with
  | nil => rfl
  | cons entry rest ih =>
    obtain ⟨k, v⟩ := entry
    simp only [find?, List.map_cons, Prod.map_apply, id_eq]
    split
    case isTrue => rfl
    case isFalse => exact ih

end Dictionary

/-- The scope around a table, and the lowered names of its entries with their ranges. -/
abbrev SymbolTable.Outline := Option Nat × Dictionary String (Option Range)

def SymbolTable.outline (t : SymbolTable) : SymbolTable.Outline :=
  (t.parent, t.symbols.map (Prod.map id SymbolEntry.range))

lemma SymbolTable.outline_add (t : SymbolTable) (e : SymbolEntry) :
    (t.add e).outline = (t.outline.1, t.outline.2.insert (lower e.name) e.range) :=
  Prod.ext rfl (Dictionary.map_insert SymbolEntry.range (lower e.name) e t.symbols)

/-- The outlines of the tables by scope. -/
def Scopes.outline (s : Scopes) : Dictionary Nat SymbolTable.Outline :=
  s.tables.map (Prod.map id SymbolTable.outline)

/-- A registration by the number of its scope, its lowered name, and its range. -/
structure Registration.Outline where
  scope : Nat
  outer : Option Nat
  name : String
  range : Option Range
  yields : Bool

def Registration.outline (r : Registration) : Registration.Outline where
  scope := r.place.scope.node.id
  outer := r.place.outerScope?.map (·.node.id)
  name := lower r.entry.name
  range := r.entry.range
  yields := r.yields

namespace Registration.Outline

variable (r : Registration.Outline) (tables : Dictionary Nat SymbolTable.Outline)

/-- The outlines of the tables with a symbol added, in place of one of its name. -/
def store : Dictionary Nat SymbolTable.Outline :=
  let table := (tables.find? r.scope).getD (r.outer, [])
  tables.insert r.scope (table.1, table.2.insert r.name r.range)

/-- The outlines of the tables after a registration. -/
def addTo : Dictionary Nat SymbolTable.Outline :=
  if r.yields && (tables.find? r.scope).any (fun t => (t.2.find? r.name).isSome) then tables
  else r.store tables

end Registration.Outline

namespace Scopes

lemma outline_add (s : Scopes) (r : Registration) :
    (s.add r.place r.entry).outline = r.outline.store s.outline := by
  have hfound (n : Nat) : s.outline.find? n = (s.table? n).map SymbolTable.outline :=
    Dictionary.find?_map SymbolTable.outline n s.tables
  have hmade (o : Option SymbolTable) (outer : Option Nat) :
      (o.getD (.empty outer)).outline = (o.map SymbolTable.outline).getD (outer, []) := by
    cases o <;> rfl
  unfold add
  rw [outline, Dictionary.map_insert, SymbolTable.outline_add, hmade, ← hfound]
  rfl

lemma containsLocal_outline (s : Scopes) (r : Registration) :
    s.containsLocal r.place r.entry.name =
      (s.outline.find? r.outline.scope).any fun t => (t.2.find? r.outline.name).isSome := by
  have hfound : s.outline.find? r.outline.scope =
      (s.table? r.place.scope.node.id).map SymbolTable.outline :=
    Dictionary.find?_map SymbolTable.outline _ s.tables
  rw [hfound, containsLocal]
  cases s.table? r.place.scope.node.id with
  | none => rfl
  | some table =>
    have hentry := Dictionary.find?_map SymbolEntry.range (lower r.entry.name) table.symbols
    have hsome := congrArg Option.isSome hentry
    rw [Option.isSome_map] at hsome
    exact hsome.symm

lemma outline_register (s : Scopes) (r : Registration) :
    (s.register r).outline = r.outline.addTo s.outline := by
  rw [register, Registration.Outline.addTo, ← containsLocal_outline, ← outline_add]
  show _ = if r.yields && s.containsLocal r.place r.entry.name then s.outline else _
  split
  case isTrue => rfl
  case isFalse => rfl

/-- Registrations with the same outlines make tables with the same outlines. -/
lemma outline_foldl_register {s s' : Scopes} {rs rs' : List Registration}
    (hs : s.outline = s'.outline)
    (h : rs.map Registration.outline = rs'.map Registration.outline) :
    (rs.foldl register s).outline = (rs'.foldl register s').outline := by
  induction rs generalizing s s' rs' with
  | nil =>
    have hrs := List.map_eq_nil_iff.1 h.symm
    rw [hrs]
    exact hs
  | cons r rs ih =>
    cases rs' with
    | nil => cases h
    | cons r' rs' =>
      obtain ⟨hr, hrs⟩ := List.cons.inj h
      apply ih _ hrs
      rw [outline_register, outline_register, hr, hs]

end Scopes

lemma Registration.outline_relabel {r : Relabel} (hr : r.InPlace)
    (h : ∀ s, Ascii.lower (r.text .identifier s) = Ascii.lower s) (x : Registration) :
    (x.relabel r).outline = x.outline := by
  simp only [outline, relabel, SymbolEntry.relabel, Located.scope_id_relabel hr,
    Located.outerScope?_id_relabel hr, h]

/-- Flattened names are made of lowered names. -/
lemma lower_flattenedName (namespaces : List String) (name : String) :
    Ascii.lower (Located.flattenedName namespaces name) =
      Located.flattenedName (namespaces.map Ascii.lower) (Ascii.lower name) := by
  have hjoin (ns : List String) : Ascii.lower (".".intercalate ns) =
      ".".intercalate (ns.map Ascii.lower) := by
    induction ns with
    | nil => rfl
    | cons n ns ih =>
      cases ns with
      | nil => simp
      | cons m ns =>
        rw [String.intercalate_cons_cons, lower_append, lower_append, ih]
        simp only [List.map_cons, String.intercalate_cons_cons]
        rfl
  have hflat (t : String) : Ascii.lower (t.map fun c => if c = '.' then '_' else c) =
      (Ascii.lower t).map fun c => if c = '.' then '_' else c := by
    have hchar (c : Char) : (if c.toLower = '.' then '_' else c.toLower) =
        (if c = '.' then '_' else c).toLower := by
      simp only [toLower_eq_iff (d := '.') (.of_capitals (by decide +kernel)) c]
      split
      case isTrue => rfl
      case isFalse => rfl
    apply String.toList_inj.1
    simp only [toList_lower, String.toList_map, List.map_map, Function.comp_def, hchar]
  rw [Located.flattenedName, Located.flattenedName, lower_append, lower_append, hflat, hjoin]
  rfl

lemma Relabel.keepsNames_lower : lower.KeepsNames :=
  ⟨rfl, rfl, lower_flattenedName⟩

/-- The registrations of a lowered node have the same outlines. -/
lemma Located.registrations_lower (l : Located Nat) :
    (lower.located l).registrations.map Registration.outline =
      l.registrations.map Registration.outline := by
  have houtline : Registration.outline ∘ Registration.relabel lower = Registration.outline :=
    funext (Registration.outline_relabel inPlace_lower lower_lower)
  rw [registrations_relabel inPlace_lower keepsNames_lower fun u _ => keepsWords_lower u,
    List.map_map, houtline]

namespace Analysis

/-- The tables of a lowered tree have the same outlines. -/
theorem outline_validate_lower (t : NumberedTree) (typedef : Bool) (sink : Sink) :
    ((ofTree (lower.tree t)).validate typedef sink).1.scopes.outline =
      ((ofTree t).validate typedef sink).1.scopes.outline := by
  rw [validate_eq, validate_eq]
  refine Scopes.outline_foldl_register rfl ?_
  simp only [ofTree, located_tree, List.flatMap_map, List.map_flatMap,
    Located.registrations_lower]

end Analysis

end BrighterCheck
