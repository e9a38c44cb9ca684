import BrighterCheck.Text.Ascii
import BrighterCheck.Text.WhiteSpace

/-!
# Paths

Paths are compared part by part: repeated slashes, a slash at the end and inner dots do not matter,
while letter case, a leading dot and steps upwards do.
-/

namespace BrighterCheck

/-- A part of a path. -/
inductive PathPart where
  | root
  | here
  | up
  | name (text : List Char)
deriving DecidableEq

/-- A path as it was given. -/
structure Path where
  text : String

namespace Path

/-- A path between slashes. -/
def pieces (p : Path) : List (List Char) :=
  splitAt (· == '/') p.text.toList

/-- What a path starts with, apart from names: the root, or the directory it is relative to. -/
def start (p : Path) : List PathPart :=
  match p.text.toList, p.pieces with
  | '/' :: _, _ => [.root]
  | _, ['.'] :: _ => [.here]
  | _, _ => []

/-- A piece of a path as a part, unless it is empty or a dot. -/
def part? : List Char → Option PathPart
  | [] | ['.'] => none
  | ['.', '.'] => some .up
  | cs => some (.name cs)

/-- The parts of a path. -/
def parts (p : Path) : List PathPart :=
  p.start ++ p.pieces.filterMap part?

/-- Whether two paths have the same parts. -/
def same (p q : Path) : Bool :=
  p.parts = q.parts

/-- The last part of a path, if it is a name. -/
def fileName? (p : Path) : Option (List Char) :=
  match p.parts.getLast? with
  | some (.name cs) => some cs
  | _ => none

/-- Whether a path names a file of type definitions. -/
def isTypedef (p : Path) : Bool :=
  match p.fileName? with
  | some cs => ".d.bs".toList.isSuffixOf (cs.map Char.toLower)
  | none => false

end Path

end BrighterCheck
