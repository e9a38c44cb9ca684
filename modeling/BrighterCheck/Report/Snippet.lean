import BrighterCheck.Report.Lines
import BrighterCheck.Text.WhiteSpace
import BrighterCheck.Text.Width

/-!
# Source snippets

A snippet shows the lines of a source that a label covers, with their numbers, and marks the label:
with carets under a single line, or with a bracket beside several lines. Of many lines the first
four and the last two are shown.
-/

namespace BrighterCheck

/-- A part of a source by byte offsets, with a message that may be empty. -/
structure Label where
  start : Nat
  finish : Nat
  message : String

namespace Snippet

/-- The number of columns between two tab stops. -/
def tabWidth : Nat := 4

/-- A character of a shown line: its byte offset in the line and the columns it takes. -/
structure Cell where
  byte : Nat
  width : Nat
  char : Char

/-- The cells of a line that goes on at the given byte and column. -/
def cellsFrom (byte column : Nat) : List Char → List Cell
  | [] => []
  | c :: cs =>
    let width := if c = '\t' then tabWidth - column % tabWidth else columnWidth c
    ⟨byte, width, c⟩ :: cellsFrom (byte + c.utf8Size) (column + width) cs

/-- The cells of a line. -/
def cells (line : List Char) : List Cell :=
  cellsFrom 0 0 line

/-- A line without the characters that end it. -/
def shownPart (line : List Char) : List Char :=
  (line.reverse.dropWhile fun c => c = '\n' || c = '\r' || c = '\x00').reverse

/-- A line as it is shown: tabs are filled up with blanks. -/
def shownText (line : List Char) : List Char :=
  (cells line).flatMap fun cell =>
    if cell.char = '\t' then List.replicate cell.width ' ' else [cell.char]

/-- The number of bytes of white space that a line starts with. -/
def indentation (line : List Char) : Nat :=
  byteLength (line.takeWhile isWhiteSpace)

/-- A line of marks: `mark` in every column of the cells that start before the byte `n`. -/
def marksBefore (mark : Char) (n : Nat) (line : List Char) : List Char :=
  ((cells line).takeWhile (·.byte < n)).flatMap fun cell => List.replicate cell.width mark

/-- A message behind marks, if it is not empty. -/
def trailing (message : String) : List Char :=
  if message.isEmpty then [] else ' ' :: message.toList

/-- The carets under the bytes from `start` to `finish` of a line, which may be behind its end. -/
def carets (line : List Char) (start finish : Nat) : List Char :=
  let behind : Cell := ⟨byteLength line, 1, '\x00'⟩
  (cells line ++ [behind]).flatMap fun cell =>
    if start < cell.byte + cell.char.utf8Size ∧ cell.byte < finish then
      List.replicate cell.width '^'
    else if cell.byte < finish then List.replicate cell.width ' '
    else []

/-- The margin beside the lines of a snippet, as wide as the largest line number. -/
structure Margin where
  width : Nat

namespace Margin

/-- The margin beside a line without a number. -/
def blank (m : Margin) : List Char :=
  List.replicate (m.width + 1) ' '

/-- The margin beside the line with the index `k`. -/
def numbered (m : Margin) (k : Nat) : List Char :=
  let digits := Nat.toDigits 10 (k + 1)
  List.replicate (m.width - digits.length) ' ' ++ digits ++ [' ']

end Margin

/-- The margin of a snippet whose last line has the index `k`. -/
def marginFor (k : Nat) : Margin :=
  ⟨(Nat.toDigits 10 (k + 1)).length⟩

/-- The number of lines shown behind the first one of a label. -/
def linesAfterStart : Nat := 3

/-- The number of lines shown before the last one of a label. -/
def linesBeforeEnd : Nat := 1

/-- A label within one line: the line, and carets under it. -/
def singleLine (m : Margin) (k : Nat) (line : List Char) (start finish : Nat) (message : String) :
    List (List Char) :=
  let shown := shownPart line
  [m.blank ++ ['│'],
   m.numbered k ++ ['│', ' '] ++ shownText shown,
   m.blank ++ ['│', ' '] ++ carets shown start (max finish (start + 1)) ++ trailing message]

/-- A line beside which a bracket runs on. -/
def bracketedLine (m : Margin) (k : Nat) (line : List Char) : List Char :=
  m.numbered k ++ ['│', ' ', '│', ' '] ++ shownText (shownPart line)

/-- The first line of a label: a bracket starts beside its text or under it. -/
def firstLine (m : Margin) (k : Nat) (line : List Char) (start : Nat) : List (List Char) :=
  let shown := shownPart line
  if start ≤ indentation shown then
    [m.numbered k ++ ['│', ' ', '╭', ' '] ++ shownText shown]
  else
    [m.numbered k ++ ['│', ' ', ' ', ' '] ++ shownText shown,
     m.blank ++ ['│', ' ', '╭'] ++ marksBefore '─' (start + 1) shown ++ ['^']]

/-- The last line of a label, with the end of the bracket under it. -/
def lastLine (m : Margin) (k : Nat) (line : List Char) (finish : Nat) (message : String) :
    List (List Char) :=
  [bracketedLine m k line,
   m.blank ++ ['│', ' ', '╰'] ++ marksBefore '─' finish (shownPart line) ++ ['^'] ++
     trailing message]

/-- The lines between the first and the last one of a label; a gap is longer than one line. -/
def middleLines (m : Margin) (k : Nat) (between : List (List Char)) : List (List Char) :=
  let shown := between.mapIdx fun i line => bracketedLine m (k + i) line
  let behind := shown.drop linesAfterStart
  let gap := behind.length - linesBeforeEnd
  if gap ≤ 1 then shown
  else
    shown.take linesAfterStart ++ [m.blank ++ ['·', ' ', '│']] ++ behind.drop gap

/-- The lines that show a label of the text `cs` in the file `name`. -/
def layout (name : String) (cs : List Char) (label : Label) : List (List Char) :=
  let first := lineIndex cs label.start
  let last := lineIndex cs label.finish
  let starts := lineStarts cs
  let all := lines cs
  let line := fun k => all.getD k []
  let start := label.start - starts.getD first 0
  let finish := label.finish - starts.getD last 0
  let m := marginFor last
  let column := charactersBefore start (line first) + 1
  let place := s!"{name}:{first + 1}:{column}"
  (m.blank ++ ['┌', '─', ' '] ++ place.toList) ::
    if first = last then
      singleLine m first (line first) start finish label.message
    else
      (m.blank ++ ['│', ' ', ' ']) ::
        (firstLine m first (line first) start ++
          middleLines m (first + 1) ((all.drop (first + 1)).take (last - first - 1)) ++
          lastLine m last (line last) finish label.message)

end Snippet

end BrighterCheck
