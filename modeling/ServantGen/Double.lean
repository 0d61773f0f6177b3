import ServantGen.Power
import ServantGen.Text.Numeral

/-!
# Binary floating-point numbers, exactly

A number of a document that is not a small integer is a 64-bit binary floating-point
number. It is held by its bits and all arithmetic on it is arithmetic on natural numbers:
`nearest` rounds a ratio to the closest number, ties to an even significand, and
`shortest` finds the fewest decimal digits that round back to the number, the closest of
them when there are several.
-/

namespace ServantGen

/-- A 64-bit binary floating-point number, by its bits: a sign, eleven bits of exponent
and fifty-two bits of fraction. -/
structure Double where
  bits : UInt64
  deriving DecidableEq, Repr, Inhabited

namespace Double

/-- Whether the sign bit is set. -/
def isNegative (x : Double) : Bool :=
  x.bits.toNat ≥ twoTo 63

/-- The bits of exponent and fraction as a number. -/
def magnitude (x : Double) : Nat :=
  x.bits.toNat % twoTo 63

/-- Neither an infinity nor a pattern that stands for no number. -/
def isFinite (x : Double) : Bool :=
  x.magnitude < 2047 * twoTo 52

def negate (x : Double) : Double :=
  ⟨x.bits ^^^ (twoTo 63).toUInt64⟩

/-- The exponent of the last bit, raised by 1074 so that it is a natural number. -/
def scale (x : Double) : Nat :=
  x.magnitude / twoTo 52 - 1

/-- The significand: the magnitude is `significand * 2 ^ scale / 2 ^ 1074`. -/
def significand (x : Double) : Nat :=
  let fraction := x.magnitude % twoTo 52
  if x.magnitude / twoTo 52 = 0 then fraction else fraction + twoTo 52

/-- Numerator and denominator of the magnitude of a finite number. -/
def ratio (x : Double) : Nat × Nat :=
  (x.significand * twoTo x.scale, twoTo 1074)

/-- The quotient rounded to the nearest natural number, ties to the even one. -/
def roundDiv (num den : Nat) : Nat :=
  let quotient := num / den
  let remainder := num % den
  if 2 * remainder > den || (2 * remainder = den && quotient % 2 = 1) then quotient + 1
  else quotient

def infinity : Double :=
  ⟨(2047 * twoTo 52).toUInt64⟩

/-- The number closest to `num / den`, ties to an even significand; infinity when the
ratio is beyond the largest finite number. -/
def nearest (num den : Nat) : Double :=
  if num = 0 then ⟨0⟩
  else
    let raised := num * twoTo 1074
    -- The last bit kept is the fifty-third below the leading one, or the smallest there is.
    let lead := (raised / den).log2
    let scale := lead - 52
    let significand := roundDiv raised (den * twoTo scale)
    let magnitude := if significand < twoTo 52 then significand else scale * twoTo 52 + significand
    if magnitude ≥ 2047 * twoTo 52 then infinity else ⟨magnitude.toUInt64⟩

/-- A natural number rounded to the nearest. -/
def ofNat (n : Nat) : Double :=
  nearest n 1

/-- The rounded product of two magnitudes. -/
def mul (x y : Double) : Double :=
  nearest (x.ratio.1 * y.ratio.1) (x.ratio.2 * y.ratio.2)

/-- The rounded quotient of two magnitudes. -/
def div (x y : Double) : Double :=
  nearest (x.ratio.1 * y.ratio.2) (x.ratio.2 * y.ratio.1)

/-- A decimal number: `digits * 10 ^ exponent`. -/
structure Decimal where
  digits : Nat
  exponent : Int
  deriving DecidableEq, Repr

/-- `digits * 10 ^ exponent` as numerator and denominator. -/
def Decimal.ratio (d : Decimal) : Nat × Nat :=
  if d.exponent ≥ 0 then (d.digits * tenTo d.exponent.toNat, 1)
  else (d.digits, tenTo (-d.exponent).toNat)

/-- The interval of reals that round to a finite nonzero number, in units of
`2 ^ scale / 2 ^ 1076`: lower end, the number itself and upper end. Below a power of two
the next number is only half as far away. -/
def interval (x : Double) : Nat × Nat × Nat :=
  let m := 4 * x.significand
  let below := if x.significand = twoTo 52 && x.scale > 0 then 1 else 2
  (m - below, m, m + 2)

/-- Whether a decimal rounds to the number: it lies in the interval, whose ends belong to
it when the significand is even. -/
def roundsTo (x : Double) (d : Decimal) : Bool :=
  let (low, _, high) := x.interval
  let (num, den) := d.ratio
  let value := num * twoTo 1076
  let unit := den * twoTo x.scale
  if x.significand % 2 = 0 then low * unit ≤ value && value ≤ high * unit
  else low * unit < value && value < high * unit

/-- The largest power of ten not above `num / den`, found by counting from an estimate. -/
def tenPower (num den : Nat) : Int :=
  if num ≥ den then
    Int.ofNat ((Nat.toDigits 10 (num / den)).length - 1)
  else
    let down := (Nat.toDigits 10 ((den + num - 1) / num - 1)).length
    Int.negOfNat down

/-- A decimal without trailing zeros in its digits; `fuel` bounds how many are dropped. -/
def Decimal.dropZeros : Nat → Decimal → Decimal
  | 0, d => d
  | fuel + 1, d =>
    if d.digits ≠ 0 && d.digits % 10 = 0 then dropZeros fuel ⟨d.digits / 10, d.exponent + 1⟩ else d

/-- The neighbours of a positive number on the grid of decimals with `count` digits, if they
round to it: the nearer one when both do. -/
def onGrid (x : Double) (lead : Int) (count : Nat) : Option Decimal :=
  let (num, den) := x.ratio
  let exponent := lead - count + 1
  let (scaledNum, scaledDen) :=
    if exponent ≥ 0 then (num, den * tenTo exponent.toNat)
    else (num * tenTo (-exponent).toNat, den)
  let floor := scaledNum / scaledDen
  let twice := 2 * (scaledNum % scaledDen)
  let below : Decimal := ⟨floor, exponent⟩
  let above : Decimal := ⟨floor + 1, exponent⟩
  match x.roundsTo below, x.roundsTo above with
  | true, true =>
    if twice < scaledDen || (twice = scaledDen && floor % 2 = 0) then some below else some above
  | true, false => some below
  | false, true => some above
  | false, false => none

/-- The fewest digits that round back to the magnitude of a finite number. Seventeen digits
always do. -/
def shortest (x : Double) : Decimal :=
  if x.significand = 0 then ⟨0, 0⟩
  else
    let lead := tenPower x.ratio.1 x.ratio.2
    let found := (List.range 17).findSome? fun count => onGrid x lead (count + 1)
    (found.getD ⟨0, 0⟩).dropZeros 20

/-- How decimals are written: positional while the leading digit has an exponent from
`least` to `most`, otherwise with an exponent that always carries its sign. -/
structure DecimalFormat where
  least : Int
  most : Int

/-- Documents write one leading digit per exponent, positional from `-5` to `15`. -/
def documentFormat : DecimalFormat := ⟨-5, 15⟩

/-- Digits without sign, in a format. Integral numbers keep one zero after the point. -/
def Decimal.write (format : DecimalFormat) (d : Decimal) : String :=
  let digits := Nat.toDigits 10 d.digits
  let lead := d.exponent + digits.length - 1
  if d.digits = 0 then "0.0"
  else if format.least ≤ lead && lead ≤ format.most then
    if d.exponent ≥ 0 then
      String.ofList (digits ++ List.replicate d.exponent.toNat '0' ++ ['.', '0'])
    else if lead ≥ 0 then
      let whole := (lead + 1).toNat
      String.ofList (digits.take whole ++ '.' :: digits.drop whole)
    else
      String.ofList ('0' :: '.' :: List.replicate (-lead - 1).toNat '0' ++ digits)
  else
    let body := match digits with
      | [only] => [only]
      | first :: rest => first :: '.' :: rest
      | [] => []
    let sign := if lead < 0 then '-' else '+'
    String.ofList (body ++ 'e' :: sign :: Nat.toDigits 10 lead.natAbs)

/-- A finite number as a document writes it. -/
def write (x : Double) : String :=
  (if x.isNegative then "-" else "") ++ x.shortest.write documentFormat

end Double

end ServantGen
