/-!
# Decimal numerals in text

Array indices and status codes are read as decimal numbers that must stay within a bound:
an optional plus sign and at least one digit, leading zeros allowed.
-/

namespace ServantGen.Text

def digit? (c : Char) : Option Nat :=
  if c.isDigit then some (c.toNat - '0'.toNat) else none

/-- The number that decimal digits denote when `high` stands for the digits before them. -/
def digitsValue? (high : Nat) : List Char → Option Nat
  | [] => some high
  | c :: rest => do
    let low ← digit? c
    digitsValue? (10 * high + low) rest

/-- Read a whole text as a decimal number of at most `bound`. -/
def numeral? (bound : Nat) (text : List Char) : Option Nat := do
  let digits := match text with
    | '+' :: rest => rest
    | _ => text
  if digits.isEmpty then none
  else
    let value ← digitsValue? 0 digits
    if value ≤ bound then some value else none

def decimal (n : Nat) : String :=
  String.ofList (Nat.toDigits 10 n)

end ServantGen.Text
