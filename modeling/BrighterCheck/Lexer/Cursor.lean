import BrighterCheck.Lexer.Pattern
import BrighterCheck.Token.Basic

/-!
# Lexical analysis

A cursor stands at a place of a source and reads one lexeme at a time: blanks are skipped, then the
longest token is taken. A string that is not closed on its line is refused up to the end of that
line; a character that starts no token is refused alone, and reading can go on behind both.
-/

namespace BrighterCheck

/-- Why a piece of text is no token. -/
inductive LexicalFault where
  | unterminatedString
  | unexpectedCharacter (c : Char)
deriving DecidableEq

/-- The wording of a lexical fault. -/
def LexicalFault.message : LexicalFault → String
  | .unterminatedString => "unterminated string literal"
  | .unexpectedCharacter c => s!"unexpected character '{c}'"

/-- A piece of text that is no token, with its range. -/
structure LexicalError where
  fault : LexicalFault
  range : Range
deriving DecidableEq

/-- A place in a source, with the text from there on. -/
structure Cursor where
  rest : List Char
  place : Position

namespace Cursor

/-- The start of a source. -/
def start (source : String) : Cursor :=
  ⟨source.toList, .origin⟩

/-- Characters between tokens that mean nothing. -/
def isBlank (c : Char) : Bool :=
  c == ' ' || c == '\t' || c == '\x0c'

/-- The cursor after the next `n` characters. -/
def forward (c : Cursor) (n : Nat) : Cursor :=
  ⟨c.rest.drop n, c.place.after (c.rest.take n)⟩

/-- The cursor at the next character that is not blank. -/
def skipBlanks (c : Cursor) : Cursor :=
  c.forward (c.rest.takeWhile isBlank).length

/-- The length of a string after its opening quote, and whether a closing quote ends it. -/
def stringTail : List Char → Nat × Bool
  | '"' :: '"' :: cs => let (n, closed) := stringTail cs; (n + 2, closed)
  | '"' :: _ => (1, true)
  | [] => (0, false)
  | c :: cs =>
    if c = '\r' ∨ c = '\n' then (0, false)
    else let (n, closed) := stringTail cs; (n + 1, closed)

/-- What the text `c :: cs` starts with, and the length of that piece. -/
def scan (c : Char) (cs : List Char) : Except LexicalFault TokenKind × Nat :=
  if c = '"' then
    match stringTail cs with
    | (n, true) => (.ok (.literal .string), n + 1)
    | (n, false) => (.error .unterminatedString, n + 1)
  else
    match Regex.longest TokenKind.patterns (c :: cs) with
    | some (kind, n + 1) => (.ok kind, n + 1)
    | _ => (.error (.unexpectedCharacter c), 1)

/-- The next token or refused piece, and the cursor after it. -/
def next (c : Cursor) : Except LexicalError Token × Cursor :=
  let c := c.skipBlanks
  match c.rest with
  | [] => (.ok (.endOfSource c.place), c)
  | d :: ds =>
    let (found, n) := scan d ds
    let c' := c.forward n
    let range := ⟨c.place, c'.place⟩
    match found with
    | .ok kind => (.ok ⟨kind, String.ofList (c.rest.take n), range⟩, c')
    | .error fault => (.error ⟨fault, range⟩, c')

/-- What the next `n` readings give. -/
def lexemes : Nat → Cursor → List (Except LexicalError Token)
  | 0, _ => []
  | n + 1, c => let (lexeme, c) := c.next; lexeme :: lexemes n c

end Cursor

/-- The tokens of a source from some place on, and the token that stands for its end. -/
structure TokenStream where
  tokens : List Token
  eof : Token

namespace TokenStream

/-- Every token of a stream, the end of the source included. -/
def toList (s : TokenStream) : List Token :=
  s.tokens ++ [s.eof]

/-- The tokens up to the end of the source, or the first piece that is refused. -/
def ofLexemes : List (Except LexicalError Token) → Except LexicalError TokenStream
  | [] => .ok ⟨[], .endOfSource .origin⟩
  | .error e :: _ => .error e
  | .ok t :: lexemes =>
    if t.kind = .eof then .ok ⟨[], t⟩
    else (ofLexemes lexemes).map fun s => { s with tokens := t :: s.tokens }

/-- The tokens of a whole source; each takes at least one character. -/
def ofSource (source : String) : Except LexicalError TokenStream :=
  ofLexemes (Cursor.lexemes (source.length + 1) (.start source))

end TokenStream

end BrighterCheck
