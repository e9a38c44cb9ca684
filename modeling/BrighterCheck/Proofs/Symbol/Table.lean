import BrighterCheck.Proofs.Symbol.Lookup
import BrighterCheck.Proofs.Text.ByteOrder
import Mathlib.Data.Finset.Card
import Mathlib.Data.String.Basic

/-!
# A symbol table is a finite map

A table answers from the last symbol that was added under the name in question, where names are
compared without regard to letter case (`LastAdded`). The symbols stand in the order of their
lowered names, so that the answers determine the table (`IsKeyed.ext`).
-/

namespace BrighterCheck

open Ascii

/-- Of the symbols `es` with the given name, in whatever letter case, the last one is `e`. -/
def LastAdded (es : List SymbolEntry) (name : String) (e : SymbolEntry) : Prop :=
  ∃ before after, es = before ++ e :: after ∧ sameWord name e.name = true ∧
    ∀ e' ∈ after, sameWord name e'.name = false

namespace SymbolTable

variable {table table' : SymbolTable} {es es' : List SymbolEntry} {parent : Option Nat}
variable {name : String} {e : SymbolEntry}

/-- The table after some symbols were added to it one after the other. -/
def addAll (table : SymbolTable) (es : List SymbolEntry) : SymbolTable :=
  es.foldl add table

/-! ### Answers -/

/-- What is found is the last symbol added under the name, or else what was found before. -/
lemma get?_addAll (table : SymbolTable) (es : List SymbolEntry) (name : String) :
    (table.addAll es).get? name =
      (es.reverse.find? fun e => sameWord name e.name).or (table.get? name) := by
  induction es generalizing table with
  | nil => rfl
  | cons e es ih =>
    calc (table.addAll (e :: es)).get? name
      _ = (es.reverse.find? _).or ((table.add e).get? name) := ih (table.add e)
      _ = _ := by
        rw [get?_add, List.reverse_cons, List.find?_append, Option.or_assoc, List.find?_singleton]
        cases sameWord name e.name <;> rfl

lemma lastAdded_iff : LastAdded es name e ↔
    es.reverse.find? (fun e => sameWord name e.name) = some e := by
  rw [List.find?_eq_some_iff_append]
  constructor
  · intro h
    obtain ⟨before, after, rfl, hname, hafter⟩ := h
    refine ⟨hname, after.reverse, before.reverse, by simp, fun e' he' => ?_⟩
    rw [hafter e' (List.mem_reverse.1 he')]
    rfl
  · intro h
    obtain ⟨hname, after, before, he, hafter⟩ := h
    refine ⟨before.reverse, after.reverse, ?_, hname, fun e' he' => ?_⟩
    · rw [← List.reverse_reverse es, he]
      simp
    · exact Bool.eq_false_of_not_eq_true' (hafter e' (List.mem_reverse.1 he'))

/-- A table that was empty answers with the last symbol added under the name. -/
lemma get?_addAll_empty_eq_some_iff :
    ((empty parent).addAll es).get? name = some e ↔ LastAdded es name e := by
  rw [get?_addAll, lastAdded_iff]
  exact Eq.congr_left (Option.or_none ..)

lemma contains_addAll_empty_iff :
    ((empty parent).addAll es).contains name = true ↔ ∃ e ∈ es, sameWord name e.name = true := by
  rw [contains, get?_addAll]
  simp [empty, get?, Dictionary.find?]

lemma parent_addAll (table : SymbolTable) (es : List SymbolEntry) :
    (table.addAll es).parent = table.parent := by
  induction es generalizing table with
  | nil => rfl
  | cons e es ih => exact ih (table.add e)

/-! ### Symbols -/

lemma IsKeyed.addAll (h : table.IsKeyed) (es : List SymbolEntry) : (table.addAll es).IsKeyed := by
  induction es generalizing table with
  | nil => exact h
  | cons e es ih => exact ih (h.add e)

/-- The keys of a table are the lowered names of its symbols. -/
lemma IsKeyed.map_fst (h : table.IsKeyed) :
    table.symbols.map Prod.fst = table.entries.map fun e => lower e.name := by
  rw [entries, List.map_map]
  exact List.map_congr_left h.key_eq

/-- The symbols of a table stand in the order of their lowered names. -/
lemma IsKeyed.pairwise_lower (h : table.IsKeyed) :
    (table.entries.map fun e => lower e.name).Pairwise (· < ·) := by
  rw [← h.map_fst]
  exact List.pairwise_map.2 h.ordered

/-- A name is found if it is the name of a symbol in the table, in whatever letter case. -/
lemma IsKeyed.contains_iff (h : table.IsKeyed) :
    table.contains name = true ↔ lower name ∈ table.entries.map fun e => lower e.name := by
  rw [contains, Option.isSome_iff_exists, List.mem_map]
  refine exists_congr fun e => ?_
  rw [h.get?_eq_some_iff, sameWord_iff, eq_comm (a := lower name)]

/-- A table is as long as it has lowered names. -/
lemma IsKeyed.size_eq (h : table.IsKeyed) :
    table.size = (table.entries.map fun e => lower e.name).toFinset.card := by
  rw [List.toFinset_card_of_nodup (h.pairwise_lower.imp ne_of_lt), size, entries, List.length_map,
    List.length_map]

/-- An entry of a table is a symbol that the table answers with, under its lowered name. -/
lemma IsKeyed.mem_symbols_iff (h : table.IsKeyed) {entry : String × SymbolEntry} :
    entry ∈ table.symbols ↔
      entry.1 = lower entry.2.name ∧ table.get? entry.2.name = some entry.2 := by
  obtain ⟨key, e⟩ := entry
  rw [get?, h.ordered.find?_eq_some_iff]
  constructor
  · intro he
    obtain rfl : key = lower e.name := h.key_eq _ he
    exact ⟨rfl, he⟩
  · intro he
    obtain ⟨hkey, he⟩ := he
    obtain rfl : key = lower e.name := hkey
    exact he

/-- The parent of a table and its answers determine it. -/
theorem IsKeyed.ext (h : table.IsKeyed) (h' : table'.IsKeyed)
    (hparent : table.parent = table'.parent)
    (hget : ∀ name, table.get? name = table'.get? name) : table = table' := by
  have hsymbols : table.symbols = table'.symbols := by
    refine h.ordered.ext h'.ordered fun entry => ?_
    rw [h.mem_symbols_iff, h'.mem_symbols_iff, hget]
  obtain ⟨parent, symbols⟩ := table
  obtain ⟨parent', symbols'⟩ := table'
  cases hparent
  cases hsymbols
  rfl

/-! ### Any symbols added to an empty table -/

/-- The last symbols added under the names are in the table. -/
lemma mem_entries_addAll_empty_iff :
    e ∈ ((empty parent).addAll es).entries ↔ LastAdded es e.name e := by
  have hget : ((empty parent).addAll es).get? e.name = some e ↔ _ :=
    ((isKeyed_empty parent).addAll es).get?_eq_some_iff
  rw [get?_addAll_empty_eq_some_iff, and_iff_left (sameWord_iff.2 rfl)] at hget
  exact hget.symm

/-- The names of the symbols in the table are those that were added. -/
lemma mem_map_lower_addAll_empty_iff {key : String} :
    (key ∈ ((empty parent).addAll es).entries.map fun e => lower e.name) ↔
      key ∈ es.map fun e => lower e.name := by
  have hcontains (name : String) :
      (lower name ∈ ((empty parent).addAll es).entries.map fun e => lower e.name) ↔
        lower name ∈ es.map fun e => lower e.name := by
    rw [← ((isKeyed_empty parent).addAll es).contains_iff, contains_addAll_empty_iff]
    simp only [List.mem_map, sameWord_iff, eq_comm (a := lower name)]
  constructor
  · intro hkey
    obtain ⟨e, -, rfl⟩ := List.mem_map.1 hkey
    exact (hcontains e.name).1 hkey
  · intro hkey
    obtain ⟨e, -, rfl⟩ := List.mem_map.1 hkey
    exact (hcontains e.name).2 hkey

/-- Tables are equal if and only if the same symbols were added last. -/
lemma addAll_empty_eq_iff : (empty parent).addAll es = (empty parent).addAll es' ↔
    ∀ name e, LastAdded es name e ↔ LastAdded es' name e := by
  constructor
  · intro heq name e
    have hlast : ((empty parent).addAll es).get? name = some e ↔ LastAdded es name e :=
      get?_addAll_empty_eq_some_iff
    rw [← hlast, heq, get?_addAll_empty_eq_some_iff]
  · intro hlast
    have hget (name : String) :
        ((empty parent).addAll es).get? name = ((empty parent).addAll es').get? name := by
      refine Option.ext fun e => ?_
      rw [get?_addAll_empty_eq_some_iff, get?_addAll_empty_eq_some_iff, hlast]
    have hparent : ((empty parent).addAll es).parent = ((empty parent).addAll es').parent :=
      (parent_addAll _ es).trans (parent_addAll _ es').symm
    exact ((isKeyed_empty parent).addAll es).ext ((isKeyed_empty parent).addAll es') hparent hget

/--
A table that was empty before the symbols `es` were added is the map from lowered names to the last
of the symbols with that name. It answers so in whatever letter case it is asked, it is as long as
there are lowered names, and it lists each of them once, in the order of their bytes. When symbols
are added in another order, the table is the same if and only if the same ones are added last.
-/
theorem finite_map_addAll (parent : Option Nat) (es : List SymbolEntry) :
    let table := (empty parent).addAll es
    table.parent = parent ∧
      (∀ name e, table.get? name = some e ↔ LastAdded es name e) ∧
      (∀ name, table.contains name = true ↔ ∃ e ∈ es, sameWord name e.name = true) ∧
      table.size = (es.map fun e => lower e.name).toFinset.card ∧
      (∀ e, e ∈ table.entries ↔ LastAdded es e.name e) ∧
      (∀ key, (key ∈ table.entries.map fun e => lower e.name) ↔
        key ∈ es.map fun e => lower e.name) ∧
      (table.entries.map fun e => Text.bytes (lower e.name)).Pairwise (· < ·) ∧
      ∀ es', (empty parent).addAll es' = table ↔
        ∀ name e, LastAdded es' name e ↔ LastAdded es name e := by
  intro table
  have hkeyed : table.IsKeyed := (isKeyed_empty parent).addAll es
  have hnames (key : String) : (key ∈ table.entries.map fun e => lower e.name) ↔
      key ∈ es.map fun e => lower e.name := mem_map_lower_addAll_empty_iff
  refine ⟨parent_addAll _ es, fun name e => get?_addAll_empty_eq_some_iff,
    fun name => contains_addAll_empty_iff, ?_, fun e => mem_entries_addAll_empty_iff, hnames, ?_,
    fun es' => addAll_empty_eq_iff⟩
  · rw [hkeyed.size_eq]
    congr 1
    exact List.toFinset.ext hnames
  · have hlower := List.pairwise_map.1 hkeyed.pairwise_lower
    exact List.pairwise_map.2 (hlower.imp Text.bytes_lt_bytes)

example : ((empty none).addAll [⟨"zeta", none, .dynamic⟩, ⟨"ALPHA", none, .string⟩,
    ⟨"Alpha", none, .dynamic⟩]).entries.map SymbolEntry.name = ["Alpha", "zeta"] := by
  decide +kernel

end SymbolTable

end BrighterCheck
