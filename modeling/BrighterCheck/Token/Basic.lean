import BrighterCheck.Token.Kind
import BrighterCheck.Text.Range

/-!
# Tokens

A token is a piece of source text with its kind and its range.
-/

namespace BrighterCheck

/-- A piece of source text with its kind and its range. -/
structure Token where
  kind : TokenKind
  text : String
  range : Range
deriving DecidableEq, Inhabited

namespace Token

/-- The end of a source, as a token without text at the position `p`. -/
def endOfSource (p : Position) : Token :=
  ⟨.eof, "", ⟨p, p⟩⟩

/-- A keyword read as a name. -/
def asIdentifier (t : Token) : Token :=
  { t with kind := .identifier }

/-- Two tokens read as one of the given kind, their texts joined by `glue`. -/
def join (kind : TokenKind) (glue : String) (t u : Token) : Token :=
  ⟨kind, t.text ++ glue ++ u.text, t.range.merge u.range⟩

end Token

end BrighterCheck
