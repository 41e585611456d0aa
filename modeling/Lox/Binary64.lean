import Lox.Rounding

/-!
# Binary floating-point numbers of 64 bits

A number is its bit pattern: one sign bit, and below it the *code* of its magnitude, an 11-bit
exponent field over a 52-bit fraction. Codes are ordered as magnitudes are, and the codes of finite
numbers are those below `infinityCode`.

Every finite magnitude is a whole number of *units*, a unit being the least positive number,
`2 ^ (-1074)`; so statements about values are statements about `Nat`. `ofRatio` gives the number
nearest to a quotient, a tie going to the even significand; from `2 ^ 1024 - 2 ^ 970` on it gives
infinity. A quotient that is a finite number gives that number (`nearestCode_of_units`).
-/

set_option autoImplicit false

namespace Lox

-- Powers of naturals are taken by the arithmetic of naturals, whatever else is imported.
attribute [local instance(2000)] instPowNat

/-- A number, as its bit pattern. -/
structure Binary64 where
  bits : UInt64
  deriving DecidableEq, Repr

namespace Binary64

/-! ## Fields -/

/-- The bit above all others. -/
def signBit : Nat := 2 ^ (63 : Nat)

/-- The lowest bit of the exponent field, just above the fraction. -/
def hiddenBit : Nat := 2 ^ (52 : Nat)

/-- Whether the sign bit is set; zero has one too, and so has what is not a number. -/
def isNegative (x : Binary64) : Bool :=
  signBit ≤ x.bits.toNat

/-- The bit pattern without the sign bit. -/
def code (x : Binary64) : Nat :=
  x.bits.toNat % signBit

/-- The code of infinity: the exponent field full, the fraction empty. -/
def infinityCode : Nat := 2047 * hiddenBit

def isFinite (x : Binary64) : Bool :=
  x.code < infinityCode

def isInfinite (x : Binary64) : Bool :=
  x.code = infinityCode

def isNaN (x : Binary64) : Bool :=
  infinityCode < x.code

theorem isFinite_iff {x : Binary64} :
    x.isFinite = true ↔ x.isNaN = false ∧ x.isInfinite = false := by
  simp only [isFinite, isNaN, isInfinite, decide_eq_true_eq, decide_eq_false_iff_not]
  omega

def isZero (x : Binary64) : Bool :=
  x.code = 0

/-- The non-negative number with a given code. -/
def ofCode (code : Nat) : Binary64 :=
  ⟨UInt64.ofNat code⟩

theorem toNat_bits_ofCode {c : Nat} (h : c < signBit) : (ofCode c).bits.toNat = c := by
  unfold signBit at h
  rw [ofCode, UInt64.toNat_ofNat']
  omega

theorem code_ofCode {c : Nat} (h : c < signBit) : (ofCode c).code = c := by
  rw [code, toNat_bits_ofCode h, Nat.mod_eq_of_lt h]

theorem isNegative_ofCode {c : Nat} (h : c < signBit) : (ofCode c).isNegative = false := by
  rw [isNegative, toNat_bits_ofCode h, decide_eq_false_iff_not]
  omega

/-! ## Magnitudes -/

/-- A unit is `2 ^ (-unitExponent)`. -/
def unitExponent : Nat := 1074

/-- The power of two by which the significand counts more than units. -/
def scale (x : Binary64) : Nat :=
  x.code / hiddenBit - 1

/-- The whole significand: the fraction under a leading one, which only the numbers with an empty
exponent field lack. -/
def significand (x : Binary64) : Nat :=
  x.code - x.scale * hiddenBit

/-- The magnitude of a finite number, in units. -/
def units (x : Binary64) : Nat :=
  x.significand * 2 ^ x.scale

/-- Equality of the numbers meant: zero has two patterns, and what is no number equals nothing. -/
def sameNumber (x y : Binary64) : Bool :=
  !x.isNaN && !y.isNaN && (x.bits == y.bits || (x.isZero && y.isZero))

theorem sameNumber_self {x : Binary64} (h : x.isNaN = false) : x.sameNumber x = true := by
  simp [sameNumber, h]

/-! ## The nearest number -/

/-- The code of the number nearest to `a / b`. The quotient in units is cut to 53 binary digits (as
many as it has, if they are fewer), and a significand that rounds up to `2 ^ 53` carries into the
exponent field by itself. -/
def nearestCode (a b : Nat) : Nat :=
  let scale := (a * 2 ^ unitExponent / b).log2 - 52
  min infinityCode (scale * hiddenBit + roundDiv .even (a * 2 ^ unitExponent) (b * 2 ^ scale))

/-- The number nearest to `a / b`. -/
def ofRatio (a b : Nat) : Binary64 :=
  ofCode (nearestCode a b)

theorem nearestCode_le (a b : Nat) : nearestCode a b ≤ infinityCode :=
  Nat.min_le_left ..

theorem code_ofRatio (a b : Nat) : (ofRatio a b).code = nearestCode a b :=
  code_ofCode (Nat.lt_of_le_of_lt (nearestCode_le a b) (by decide))

/-- The two parts of a code make it up. -/
theorem scale_add_significand (x : Binary64) : x.scale * hiddenBit + x.significand = x.code := by
  unfold significand scale hiddenBit
  omega

theorem significand_lt (x : Binary64) : x.significand < 2 * hiddenBit := by
  unfold significand scale hiddenBit
  omega

/-- Only numbers of the least scale may have a short significand. -/
theorem scale_eq_zero_or (x : Binary64) : x.scale = 0 ∨ hiddenBit ≤ x.significand := by
  unfold significand scale hiddenBit
  omega

/-- The units of a number have 52 binary digits more than its scale counts, or fewer if the scale is
the least. -/
theorem log2_units_sub (x : Binary64) : x.units.log2 - 52 = x.scale := by
  have hlt : x.significand < 2 ^ (53 : Nat) := significand_lt x
  have hpos : 0 < 2 ^ x.scale := Nat.two_pow_pos _
  unfold units
  rcases scale_eq_zero_or x with h | h
  · rw [h, Nat.pow_zero, Nat.mul_one]
    have : x.significand.log2 < 53 := by
      by_cases hz : x.significand = 0
      · rw [hz]
        decide
      · exact (Nat.log2_lt hz).2 hlt
    omega
  · have h : 2 ^ (52 : Nat) ≤ x.significand := h
    have hne : x.significand * 2 ^ x.scale ≠ 0 := Nat.ne_of_gt (Nat.mul_pos (by omega) hpos)
    have hle : 52 + x.scale ≤ (x.significand * 2 ^ x.scale).log2 := by
      rw [Nat.le_log2 hne, Nat.pow_add]
      exact Nat.mul_le_mul_right _ h
    have hgt : (x.significand * 2 ^ x.scale).log2 < 53 + x.scale := by
      rw [Nat.log2_lt hne, Nat.pow_add]
      exact Nat.mul_lt_mul_of_pos_right hlt hpos
    omega

/-- A quotient that is a finite number is rounded to that number. -/
theorem nearestCode_of_units {x : Binary64} {a b : Nat} (hb : 0 < b) (hx : x.isFinite = true)
    (h : a * 2 ^ unitExponent = x.units * b) : nearestCode a b = x.code := by
  have hlt : x.code < infinityCode := by simpa [isFinite] using hx
  have hquot : x.units * b = x.significand * (b * 2 ^ x.scale) := by
    unfold units
    rw [Nat.mul_assoc, Nat.mul_comm (2 ^ x.scale)]
  unfold nearestCode
  dsimp only
  rw [h, Nat.mul_div_cancel _ hb, log2_units_sub, hquot,
    roundDiv_mul _ _ (Nat.mul_pos hb (Nat.two_pow_pos _)), scale_add_significand]
  omega

/-- A quotient of naturals is never rounded to what is not a number. -/
theorem isNaN_ofRatio (a b : Nat) : (ofRatio a b).isNaN = false := by
  have h := nearestCode_le a b
  simp only [isNaN, code_ofRatio, decide_eq_false_iff_not]
  omega

/-- A quotient of naturals is never rounded to a negative number. -/
theorem isNegative_ofRatio (a b : Nat) : (ofRatio a b).isNegative = false :=
  isNegative_ofCode (Nat.lt_of_le_of_lt (nearestCode_le a b) (by decide))

end Binary64

end Lox
