import BrighterCheck.Text.Range
import BrighterCheck.Tree.Form

/-!
# Stored nodes

The nodes of a file in the order in which they are made, each at the index that is its number. A row
knows the nodes below it by number. It learns its parent when the parent is made, or when another
node is rewritten in place and takes it up.
-/

namespace BrighterCheck

/-- A stored node. -/
structure Row where
  form : Form Nat
  range : Option Range
  parent : Option Nat

/-- The nodes of a file by number. -/
abbrev Store := Array Row

namespace Store

/-- The root alone, before anything was read. -/
def start : Store :=
  #[⟨.body [], none, none⟩]

/-- The row of the node `child` gets the parent `parent`. -/
def setParent (s : Store) (parent child : Nat) : Store :=
  s.modify child fun row => { row with parent := some parent }

/-- The node `parent` becomes the parent of all `children`. -/
def adopt (s : Store) (parent : Nat) (children : List Nat) : Store :=
  children.foldl (fun s child => s.setParent parent child) s

/-- Adds a node, which adopts its children. -/
def alloc (s : Store) (form : Form Nat) (range : Option Range) : Store :=
  (s.adopt s.size form.children).push ⟨form, range, none⟩

/-- Overwrites the node `id`, which keeps its own parent and adopts its new children. -/
def replace (s : Store) (id : Nat) (form : Form Nat) (range : Option Range) : Store :=
  (s.adopt id form.children).modify id fun row => { row with form, range }

/-- The node `id`, grown to cover `range` too. -/
def extend (s : Store) (id : Nat) (range : Range) : Store :=
  s.modify id fun row => { row with range := Range.bounding [row.range, some range] }

/-- Makes the node `target` the statement that assigns the node `value` to it. -/
def assign (s : Store) (target : Nat) (operator : Token) (value : Nat) (range : Option Range) :
    Store :=
  match s[target]?.bind fun row => row.form.assign? operator value with
  | some form => s.replace target form range
  | none => s

@[simp]
theorem size_adopt (s : Store) (parent : Nat) (children : List Nat) :
    (s.adopt parent children).size = s.size := by
  induction children generalizing s with
  | nil => rfl
  | cons c cs ih => exact (ih _).trans Array.size_modify

@[simp]
theorem size_alloc (s : Store) (form : Form Nat) (range : Option Range) :
    (s.alloc form range).size = s.size + 1 := by
  simp [alloc]

@[simp]
theorem size_replace (s : Store) (id : Nat) (form : Form Nat) (range : Option Range) :
    (s.replace id form range).size = s.size := by
  simp [replace]

@[simp]
theorem size_extend (s : Store) (id : Nat) (range : Range) : (s.extend id range).size = s.size := by
  simp [extend]

@[simp]
theorem size_assign (s : Store) (target : Nat) (operator : Token) (value : Nat)
    (range : Option Range) : (s.assign target operator value range).size = s.size := by
  unfold assign
  split
  · exact size_replace ..
  · rfl

end Store

end BrighterCheck
