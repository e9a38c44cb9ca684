import BrighterCheck.Diagnostic.Basic
import BrighterCheck.Text.Ascii
import BrighterCheck.Text.Number
import BrighterCheck.Text.WhiteSpace
import BrighterCheck.Token.Basic

/-!
# Suppression of diagnostics

A comment can be a flag that suppresses diagnostics on its own line or on the next one: all of them,
or those whose codes it lists.
-/

namespace BrighterCheck

/-- A wish to suppress the diagnostics of a line; without codes it concerns all of them. -/
structure CommentFlag where
  line : Nat
  codes : Option (List Nat)
deriving DecidableEq

namespace CommentFlag

/-- The text of a comment behind the mark or the word that starts it. -/
def body : List Char → List Char
  | '\'' :: cs => cs
  | cs => (Ascii.dropWord? "rem".toList cs).getD cs

/-- What follows the directive of a flag on `line`, and the line that the flag concerns. -/
def directive? (line : Nat) (text : List Char) : Option (List Char × Nat) :=
  match Ascii.dropWord? "bs:disable-next-line".toList text with
  | some rest => some (rest, nextIndex line)
  | none => (Ascii.dropWord? "bs:disable-line".toList text).map (·, line)

/-- The list of codes behind a directive: it follows a colon or white space, or is left out. -/
def list? : List Char → Option (List Char)
  | [] => some []
  | ':' :: rest => some rest
  | c :: rest => if isWhiteSpace c then some (c :: rest) else none

/-- A code of a list, which may be written with the letters that diagnostics show before it. -/
def codeOf? (piece : List Char) : Option Nat :=
  code? ((Ascii.dropWord? "bs".toList piece).getD piece)

/-- The codes of a list; whatever is no code is passed over. -/
def codesOf (list : List Char) : List Nat :=
  (pieces (fun c => isWhiteSpace c || c == ',') list).filterMap codeOf?

/-- The flag that a comment on `line` is, if it is one. -/
def ofComment? (line : Nat) (text : String) : Option CommentFlag := do
  let (rest, affected) ← directive? line (trim (body text.toList))
  let list ← list? rest
  let codes := codesOf list
  return ⟨affected, if codes.isEmpty then none else some codes⟩

/-- The flags among the tokens of a file. -/
def ofTokens (tokens : List Token) : List CommentFlag :=
  tokens.filterMap fun t =>
    if t.kind = .comment then ofComment? t.range.start.line t.text else none

/-- Whether a flag suppresses a diagnostic; one without a range is never suppressed. -/
def suppresses (f : CommentFlag) (d : Diagnostic) : Bool :=
  match d.range with
  | none => false
  | some range =>
    range.start.line = f.line &&
      match f.codes with
      | none => true
      | some codes => codes.contains d.code

end CommentFlag

end BrighterCheck
