/-!
# Punctuators

Operators, brackets and separators: the tokens with a single spelling and no letters.
-/

namespace BrighterCheck

/-- The marks of the language. -/
inductive Punctuator where
  | questionDot
  | questionSquare
  | atDot
  | notEqual
  | lessEqual
  | greaterEqual
  | shiftLeftAssign
  | shiftRightAssign
  | shiftLeft
  | shiftRight
  | plusAssign
  | minusAssign
  | starAssign
  | slashAssign
  | backslashAssign
  | increment
  | decrement
  | equal
  | less
  | greater
  | plus
  | minus
  | star
  | slash
  | backslash
  | caret
  | question
  | atSign
  | openParen
  | closeParen
  | openSquare
  | closeSquare
  | openCurly
  | closeCurly
  | comma
  | dot
  | colon
  | semicolon
deriving DecidableEq, Inhabited

namespace Punctuator

/-- Every punctuator. -/
def all : List Punctuator :=
  [.questionDot, .questionSquare, .atDot, .notEqual, .lessEqual, .greaterEqual,
   .shiftLeftAssign, .shiftRightAssign, .shiftLeft, .shiftRight, .plusAssign, .minusAssign,
   .starAssign, .slashAssign, .backslashAssign, .increment, .decrement, .equal, .less, .greater,
   .plus, .minus, .star, .slash, .backslash, .caret, .question, .atSign, .openParen,
   .closeParen, .openSquare, .closeSquare, .openCurly, .closeCurly, .comma, .dot, .colon,
   .semicolon]

/-- The name of a punctuator in token listings. -/
def name : Punctuator → String
  | .questionDot => "QuestionDot"
  | .questionSquare => "QuestionLeftSquare"
  | .atDot => "Callfunc"
  | .notEqual => "LessGreater"
  | .lessEqual => "LessEqual"
  | .greaterEqual => "GreaterEqual"
  | .shiftLeftAssign => "LeftShiftEqual"
  | .shiftRightAssign => "RightShiftEqual"
  | .shiftLeft => "LeftShift"
  | .shiftRight => "RightShift"
  | .plusAssign => "PlusEqual"
  | .minusAssign => "MinusEqual"
  | .starAssign => "StarEqual"
  | .slashAssign => "SlashEqual"
  | .backslashAssign => "BackslashEqual"
  | .increment => "PlusPlus"
  | .decrement => "MinusMinus"
  | .equal => "Equal"
  | .less => "Less"
  | .greater => "Greater"
  | .plus => "Plus"
  | .minus => "Minus"
  | .star => "Star"
  | .slash => "Slash"
  | .backslash => "Backslash"
  | .caret => "Caret"
  | .question => "Question"
  | .atSign => "At"
  | .openParen => "LeftParen"
  | .closeParen => "RightParen"
  | .openSquare => "LeftSquare"
  | .closeSquare => "RightSquare"
  | .openCurly => "LeftCurly"
  | .closeCurly => "RightCurly"
  | .comma => "Comma"
  | .dot => "Dot"
  | .colon => "Colon"
  | .semicolon => "Semicolon"

/-- A punctuator as it is written. -/
def spelling : Punctuator → String
  | .questionDot => "?."
  | .questionSquare => "?["
  | .atDot => "@."
  | .notEqual => "<>"
  | .lessEqual => "<="
  | .greaterEqual => ">="
  | .shiftLeftAssign => "<<="
  | .shiftRightAssign => ">>="
  | .shiftLeft => "<<"
  | .shiftRight => ">>"
  | .plusAssign => "+="
  | .minusAssign => "-="
  | .starAssign => "*="
  | .slashAssign => "/="
  | .backslashAssign => "\\="
  | .increment => "++"
  | .decrement => "--"
  | .equal => "="
  | .less => "<"
  | .greater => ">"
  | .plus => "+"
  | .minus => "-"
  | .star => "*"
  | .slash => "/"
  | .backslash => "\\"
  | .caret => "^"
  | .question => "?"
  | .atSign => "@"
  | .openParen => "("
  | .closeParen => ")"
  | .openSquare => "["
  | .closeSquare => "]"
  | .openCurly => "\x7b"
  | .closeCurly => "\x7d"
  | .comma => ","
  | .dot => "."
  | .colon => ":"
  | .semicolon => ";"

/-- The operators that change a target instead of replacing it, as in `n += 1`. -/
def isCompoundAssignment : Punctuator → Bool
  | .plusAssign | .minusAssign | .starAssign | .slashAssign | .backslashAssign
  | .shiftLeftAssign | .shiftRightAssign => true
  | _ => false

end Punctuator

end BrighterCheck
