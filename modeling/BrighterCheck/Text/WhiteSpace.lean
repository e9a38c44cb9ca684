/-!
# White space

The characters that separate words in running text, and the words of a text.
-/

namespace BrighterCheck

/-- The characters with the property `White_Space`. -/
def isWhiteSpace (c : Char) : Bool :=
  let n := c.toNat
  (9 ≤ n && n ≤ 13) || n == 0x20 || n == 0x85 || n == 0xA0 || n == 0x1680 ||
    (0x2000 ≤ n && n ≤ 0x200A) || n == 0x2028 || n == 0x2029 || n == 0x202F || n == 0x205F ||
    n == 0x3000

/-- A text without the white space at its ends. -/
def trim (cs : List Char) : List Char :=
  ((cs.dropWhile isWhiteSpace).reverse.dropWhile isWhiteSpace).reverse

/-- The parts of a text between separators, empty ones included. -/
def splitAt (isSeparator : Char → Bool) : List Char → List (List Char)
  | [] => [[]]
  | c :: cs =>
    let parts := splitAt isSeparator cs
    if isSeparator c then [] :: parts
    else
      match parts with
      | [] => [[c]]
      | part :: more => (c :: part) :: more

/-- The non-empty parts of a text between separators. -/
def pieces (isSeparator : Char → Bool) (cs : List Char) : List (List Char) :=
  (splitAt isSeparator cs).filter (!·.isEmpty)

end BrighterCheck
