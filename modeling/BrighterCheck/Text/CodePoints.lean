/-!
# Sets of code points

A set of code points is listed by the ends of its runs.
-/

namespace BrighterCheck

/-- Runs of code points, each given by its first and its last one. -/
abbrev CodePoints := List (Nat × Nat)

/-- Whether a character is in a set of code points. -/
def CodePoints.contains (s : CodePoints) (c : Char) : Bool :=
  s.any fun run => run.1 ≤ c.toNat && c.toNat ≤ run.2

end BrighterCheck
