import Lox.Binary64

/-!
# Decimal numbers

A non-negative decimal number `coefficient · 10 ^ exponent`, kept exactly. `Decimal.ofDigits` reads
the digits before and after a point; `Decimal.toBinary64` is the binary number nearest to a decimal,
however many digits it has.
-/

set_option autoImplicit false

namespace Lox

-- Powers of naturals are taken by the arithmetic of naturals, whatever else is imported.
attribute [local instance(2000)] instPowNat

/-- The number `coefficient · 10 ^ exponent`. -/
structure Decimal where
  coefficient : Nat
  exponent : Int
  deriving DecidableEq, Repr

namespace Decimal

/-- The number written with the digits `whole`, a point and the digits `fraction`. -/
def ofDigits (whole fraction : List Char) : Decimal where
  coefficient := Nat.ofDigitChars 10 (whole ++ fraction) 0
  exponent := -fraction.length

/-- The digits of the coefficient, without leading zeros. -/
def digits (d : Decimal) : List Char :=
  Nat.toDigits 10 d.coefficient

/-- The power of ten that the first digit counts. -/
def leadingExponent (d : Decimal) : Int :=
  d.exponent + d.digits.length - 1

/-- The numerator of the number as a quotient of naturals. -/
def numerator (d : Decimal) : Nat :=
  d.coefficient * 10 ^ d.exponent.toNat

/-- The denominator of the number as a quotient of naturals. -/
def denominator (d : Decimal) : Nat :=
  10 ^ (-d.exponent).toNat

theorem denominator_pos (d : Decimal) : 0 < d.denominator :=
  Nat.pow_pos (by decide)

/-- The binary number nearest to a decimal. -/
def toBinary64 (d : Decimal) : Binary64 :=
  .ofRatio d.numerator d.denominator

/-- Reading back the digits of a coefficient gives it. -/
theorem ofDigitChars_digits (d : Decimal) : Nat.ofDigitChars 10 d.digits 0 = d.coefficient :=
  Nat.ofDigitChars_toDigits (by decide) (by decide)

end Decimal

end Lox
