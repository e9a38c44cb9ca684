import BrighterCheck.Lexer.Regex
import BrighterCheck.Token.Kind

/-!
# Token patterns

The pattern of every kind of token that a source can hold. Where two patterns match the same text,
the one listed first is meant: a keyword is no identifier, and `rem` alone is a comment.
-/

namespace BrighterCheck

namespace Pattern

open Regex

/-- A decimal digit. -/
def digit : Regex :=
  .one Char.isDigit

/-- A digit of a hexadecimal number. -/
def hexDigit : Regex :=
  .one fun c => c.isDigit || ('a' ≤ c && c ≤ 'f') || ('A' ≤ c && c ≤ 'F')

/-- A character that does not end its line. -/
def sameLine : Regex :=
  .one fun c => c != '\r' && c != '\n'

/-- The first character of a name. -/
def nameStart : Regex :=
  .one fun c => c.isAlpha || c == '_'

/-- A later character of a name. -/
def nameRest : Regex :=
  .one fun c => c.isAlphanum || c == '_'

/-- The mark after a name that tells the type of its value. -/
def typeMark : Regex :=
  .one ['$', '%', '!', '#', '&'].contains

/-- A string: quotes inside it are written twice, and it ends on its line. -/
def string : Regex :=
  sequence
    [char '"',
     .star (.alt (.one fun c => c != '"' && c != '\r' && c != '\n') (text ['"', '"'])),
     char '"']

/-- A whole number in base ten. -/
def decimal : Regex :=
  plus digit

/-- A whole number in base sixteen. -/
def hexadecimal : Regex :=
  sequence [char '&', letter 'h', plus hexDigit]

/-- A power of ten. -/
def exponent : Regex :=
  sequence [letter 'e', opt (.one ['+', '-'].contains), plus digit]

/-- The patterns of the literals that are not words. -/
def literals : List (LiteralKind × Regex) :=
  [(.string, string),
   (.integer, decimal),
   (.integer, hexadecimal),
   (.longInteger, .seq decimal (char '&')),
   (.longInteger, .seq hexadecimal (char '&')),
   (.float, sequence [decimal, char '.', .star digit, opt exponent, opt (char '!')]),
   (.float, sequence [char '.', decimal, opt exponent, opt (char '!')]),
   (.float, sequence [decimal, exponent, opt (char '!')]),
   (.float, .seq decimal (char '!')),
   (.double, sequence [decimal, opt (.seq (char '.') (.star digit)), opt exponent, char '#']),
   (.double, sequence [char '.', decimal, opt exponent, char '#'])]

/-- The two styles of comment: after an apostrophe, and after the word `rem` and a blank. -/
def comments : List Regex :=
  [.seq (char '\'') (.star sameLine),
   .seq (word "rem".toList) (opt (.seq (.one [' ', '\t'].contains) (.star sameLine)))]

/-- The directives; the text of an error runs to the end of its line. -/
def directives : List (Directive × Regex) :=
  [Directive.const, .ifDirective, .elseDirective, .endDirective, .endIf].map
    (fun d => (d, word d.spelling.toList)) ++
  [(.error, .seq (word Directive.error.spelling.toList) (.star sameLine))]

/-- A name, with an optional mark for its type. -/
def identifier : Regex :=
  sequence [nameStart, .star nameRest, opt typeMark]

/-- A line end, with or without a carriage return. -/
def newline : Regex :=
  .seq (opt (char '\r')) (char '\n')

end Pattern

namespace TokenKind

/-- Every token pattern with the kind that it stands for. -/
def patterns : List (TokenKind × Regex) :=
  Keyword.all.map (fun w => (.keyword w, .word w.spelling.toList)) ++
  Pattern.literals.map (fun (l, r) => (.literal l, r)) ++
  Pattern.comments.map (.comment, ·) ++
  Pattern.directives.map (fun (d, r) => (.directive d, r)) ++
  Punctuator.all.map (fun p => (.punctuator p, .text p.spelling.toList)) ++
  [(.newline, Pattern.newline), (.identifier, Pattern.identifier)]

end TokenKind

end BrighterCheck
