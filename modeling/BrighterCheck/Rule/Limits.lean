import BrighterCheck.Diagnostic.Basic
import BrighterCheck.Tree.Basic

/-!
# Limits

How many arguments a call on another node may pass, and how many parameters a function may have.
-/

namespace BrighterCheck.Tree

variable {ι : Type}

/-- The most arguments that a call on another node may pass. -/
def maxCallfuncArguments : Nat := 5

/-- The most parameters that a function may have. -/
def maxParameters : Nat := 32

/-- A call on another node with too many arguments is reported at the name of the method. -/
def callfuncFindings (method : Token) (arguments : List (Tree ι)) : List Finding :=
  if arguments.length > maxCallfuncArguments then
    [⟨.callfuncArguments arguments.length, some method.range⟩]
  else
    []

/-- The name of a parameter. -/
def parameterName? : Tree ι → Option Token
  | ⟨_, .parameter name _, _, _⟩ => some name
  | _ => none

/-- Each parameter behind the last one allowed is reported at its name. -/
def parameterFindings (parameters : List (Tree ι)) : List Finding :=
  (parameters.drop maxParameters).filterMap fun t =>
    t.parameterName?.map fun name =>
      ⟨.tooManyParameters parameters.length maxParameters, some name.range⟩

end BrighterCheck.Tree
