import Lox.Decimal.Shortest

/-!
# Numerals

How a binary number is written in decimal: with the shortest digits that read back, placed around a
point (`1.5`, `0.001`) or in front of a power of ten (`1.5e-7`). A `NumeralStyle` holds what two
writers may decide differently.
-/

set_option autoImplicit false

namespace Lox

/-- The decisions of a way to write numbers. -/
structure NumeralStyle where
  /-- Which way a number halfway between two shortest decimals goes. -/
  tie : Tie
  /-- The least leading exponent that is written around a point. -/
  leastPositional : Int
  /-- The least leading exponent that is too large to be written around a point. -/
  leastLarge : Int
  /-- What stands before an exponent that is not negative. -/
  plusSign : List Char

namespace NumeralStyle

/-- The digits around a point, with at least one on either side; the first digit counts
`10 ^ leading`. -/
def positional (digits : List Char) (leading : Int) : List Char :=
  if leading < 0 then
    '0' :: '.' :: List.replicate (-leading - 1).toNat '0' ++ digits
  else
    let whole := leading.toNat + 1
    let missing := List.replicate (whole - digits.length) '0'
    let fraction := digits.drop whole
    digits.take whole ++ missing ++ '.' :: (if fraction.isEmpty then ['0'] else fraction)

/-- The digits around a point after the first digit, if there are more, and a power of ten. -/
def scientific (style : NumeralStyle) (digits : List Char) (leading : Int) : List Char :=
  let fraction := digits.drop 1
  let sign := if leading < 0 then ['-'] else style.plusSign
  digits.take 1 ++ (if fraction.isEmpty then [] else '.' :: fraction)
    ++ 'e' :: sign ++ Nat.toDigits 10 leading.natAbs

/-- The numeral of a decimal. -/
def decimal (style : NumeralStyle) (d : Decimal) : List Char :=
  if style.leastPositional ≤ d.leadingExponent ∧ d.leadingExponent < style.leastLarge then
    positional d.digits d.leadingExponent
  else
    style.scientific d.digits d.leadingExponent

/-- The numeral of a finite number; a set sign bit gives a minus sign, before zero too. -/
def finite (style : NumeralStyle) (x : Binary64) : List Char :=
  (if x.isNegative then ['-'] else []) ++ style.decimal (.shortest style.tie x)

end NumeralStyle

namespace Binary64

/-- Numbers are displayed around a point from `0.0001` to below `10 ^ 16`, without a plus sign, and
a tie goes up. -/
def displayStyle : NumeralStyle where
  tie := .up
  leastPositional := -4
  leastLarge := 16
  plusSign := []

/-- The text of a number for people to read. -/
def display (x : Binary64) : String :=
  if x.isNaN then "NaN"
  else if x.isInfinite then (if x.isNegative then "-inf" else "inf")
  else String.ofList (displayStyle.finite x)

end Binary64

end Lox
