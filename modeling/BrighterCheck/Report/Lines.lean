import BrighterCheck.Text.Range

/-!
# Lines of a source

Lines end at a line feed, which belongs to them; the last line may be empty. Positions in lines and
columns are converted to byte offsets, and back to the number of the line.
-/

namespace BrighterCheck

/-- The number of bytes of a text. -/
def byteLength (cs : List Char) : Nat :=
  cs.foldr (fun c n => c.utf8Size + n) 0

/-- The offsets of the lines that start within `cs`, which itself starts at the offset `n`. -/
def laterLineStarts (n : Nat) : List Char → List Nat
  | [] => []
  | c :: cs =>
    let next := n + c.utf8Size
    if c = '\n' then next :: laterLineStarts next cs else laterLineStarts next cs

/-- The offsets at which the lines of a text start. -/
def lineStarts (cs : List Char) : List Nat :=
  0 :: laterLineStarts 0 cs

/-- The lines of a text, with their line feeds. -/
def lines : List Char → List (List Char)
  | [] => [[]]
  | c :: cs =>
    if c = '\n' then [c] :: lines cs
    else
      match lines cs with
      | [] => [[c]]
      | line :: more => (c :: line) :: more

/-- Where the line with the index `k` starts and ends, if there is such a line. -/
def lineSpan? (cs : List Char) (k : Nat) : Option (Nat × Nat) :=
  match (lineStarts cs).drop k with
  | [] => none
  | [start] => some (start, byteLength cs)
  | start :: next :: _ => some (start, next)

/-- The byte offset of a position, which is kept within its line and within the text. -/
def offsetOf (cs : List Char) (p : Position) : Nat :=
  match lineSpan? cs p.line with
  | some (start, finish) => min (start + p.column) finish
  | none => byteLength cs

/-- The offsets of the two ends of a range, in order. -/
def byteSpan (cs : List Char) (r : Range) : Nat × Nat :=
  let start := offsetOf cs r.start
  (start, max (offsetOf cs r.finish) start)

/-- The index of the line that holds the byte offset `n`. -/
def lineIndex (cs : List Char) (n : Nat) : Nat :=
  ((lineStarts cs).takeWhile (· ≤ n)).length - 1

/-- The number of characters of a line that end within its first `n` bytes. -/
def charactersBefore (n : Nat) : List Char → Nat
  | [] => 0
  | c :: cs => if c.utf8Size ≤ n then charactersBefore (n - c.utf8Size) cs + 1 else 0

end BrighterCheck
