import BrighterCheck.Symbol.Type
import BrighterCheck.Text.Range

/-!
# Symbol tables

The symbols of one scope. Names are compared without regard to ASCII letter case, and of several
symbols with the same name the last one stays (`get?_add`).
-/

namespace BrighterCheck

/-- A symbol: its name as it was written, where it was declared, and its type. -/
structure SymbolEntry where
  name : String
  range : Option Range
  type : ScriptType

/-- The symbols of one scope by lower-cased name, and the number of the scope around it. -/
structure SymbolTable where
  parent : Option Nat
  symbols : Dictionary String SymbolEntry

namespace SymbolTable

/-- A table without symbols. -/
def empty (parent : Option Nat) : SymbolTable :=
  ⟨parent, []⟩

/-- Adds a symbol, in place of one with the same name. -/
def add (t : SymbolTable) (e : SymbolEntry) : SymbolTable :=
  { t with symbols := t.symbols.insert (Ascii.lower e.name) e }

/-- The symbol with the given name. -/
def get? (t : SymbolTable) (name : String) : Option SymbolEntry :=
  t.symbols.find? (Ascii.lower name)

/-- What is found under a name is what was added last under it, in whatever letter case. -/
theorem get?_add (t : SymbolTable) (e : SymbolEntry) (name : String) :
    (t.add e).get? name = if Ascii.sameWord name e.name then some e else t.get? name := by
  simp [get?, add, Dictionary.find?_insert, Ascii.sameWord]

/-- Whether there is a symbol with the given name. -/
def contains (t : SymbolTable) (name : String) : Bool :=
  (t.get? name).isSome

/-- The number of symbols. -/
def size (t : SymbolTable) : Nat :=
  t.symbols.length

/-- The symbols in the order of their lower-cased names. -/
def entries (t : SymbolTable) : List SymbolEntry :=
  t.symbols.map Prod.snd

end SymbolTable

end BrighterCheck
