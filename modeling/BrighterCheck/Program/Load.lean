import BrighterCheck.Program.Basic

/-!
# Loading files

A file is loaded by reading its text and adding it to a program. Where the text cannot be read there
is nothing to add.
-/

namespace BrighterCheck

/-- Why the text of a file is not there. -/
inductive ReadFailure where
  | notFound
  | notDirectory
  | isDirectory
  | nameTooLong
  | notText
  | other (text : String)

/-- The wording of a read failure. -/
def ReadFailure.message : ReadFailure → String
  | .notFound => "No such file or directory (os error 2)"
  | .notDirectory => "Not a directory (os error 20)"
  | .isDirectory => "Is a directory (os error 21)"
  | .nameTooLong => "File name too long (os error 36)"
  | .notText => "stream did not contain valid UTF-8"
  | .other text => text

/-- Adds a file whose text, or the failure to read it, is given. -/
def Program.load (p : Program) (path : Path) (text : Except ReadFailure String) :
    Except ReadFailure Addition :=
  text.map (p.add path)

end BrighterCheck
