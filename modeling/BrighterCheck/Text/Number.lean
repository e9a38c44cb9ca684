/-!
# Decimal numbers

Reading whole numbers below a bound from decimal digits.
-/

namespace BrighterCheck

/-- The value of decimal digits, none of which may be another character. -/
def digitsValue? (cs : List Char) : Option Nat :=
  cs.foldl (fun value c => value.bind fun n =>
    if c.isDigit then some (10 * n + (c.toNat - '0'.toNat)) else none) (some 0)

/-- The first number that is too large for a diagnostic code, which has 32 bits. -/
def codeBound : Nat := 0x100000000

/-- The value of decimal digits, of which there is at least one. -/
def natural? (cs : List Char) : Option Nat :=
  if cs.isEmpty then none else digitsValue? cs

/-- A code in decimal digits, which may follow a plus sign. -/
def code? (cs : List Char) : Option Nat :=
  let digits := match cs with
    | '+' :: rest => rest
    | _ => cs
  (natural? digits).filter (· < codeBound)

/-- A code behind either sign; only zero can follow a minus sign. -/
def signedCode? : List Char → Option Nat
  | '-' :: digits => (natural? digits).filter (· = 0)
  | cs => code? cs

end BrighterCheck
