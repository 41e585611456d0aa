import Lox.Proofs.Binary64.Nearest
import Lox.Proofs.Binary64.Quotient
import Mathlib.Algebra.Order.Field.Rat
import Mathlib.Algebra.Order.Group.Unbundled.Int
import Mathlib.Data.Rat.Cast.Order
import Mathlib.Tactic.FieldSimp
import Mathlib.Tactic.Linarith
import Mathlib.Tactic.NormNum
import Mathlib.Tactic.Positivity

/-!
# Values and correct rounding

The rational number that a bit pattern means, read off its fields (`Binary64.value`), and what it is
for a bit pattern to be a rational number rounded to the nearest, with a tie going to the even
significand and infinity from the middle beyond the greatest finite number on (`IsRounded`). Each
quotient is rounded to one bit pattern only, and that is the one that is found for it
(`isRounded_iff`).
-/

set_option autoImplicit false

namespace Lox

-- Powers of naturals are taken by the arithmetic of naturals, whatever else is imported.
attribute [local instance(2000)] instPowNat

namespace Binary64

/-! ## Values -/

/-- The eleven bits of the exponent. -/
def exponentField (x : Binary64) : Nat :=
  x.bits.toNat / 2 ^ (52 : Nat) % 2 ^ (11 : Nat)

/-- The fifty-two bits of the fraction. -/
def fractionField (x : Binary64) : Nat :=
  x.bits.toNat % 2 ^ (52 : Nat)

/-- The number that a finite bit pattern means. The fraction stands under a leading one, but for an
empty exponent field. -/
def value (x : Binary64) : ℚ :=
  let magnitude : ℚ :=
    if x.exponentField = 0 then x.fractionField * (2 : ℚ) ^ (-1074 : ℤ)
    else (2 ^ 52 + x.fractionField) * (2 : ℚ) ^ ((x.exponentField : ℤ) - 1075)
  if x.isNegative then -magnitude else magnitude

theorem exponentField_eq (x : Binary64) : x.exponentField = x.code / hiddenBit := by
  have hlt : x.bits.toNat < 2 ^ (64 : Nat) := x.bits.toNat_lt
  unfold exponentField code hiddenBit signBit
  omega

theorem fractionField_eq (x : Binary64) : x.fractionField = x.code % hiddenBit := by
  unfold fractionField code hiddenBit signBit
  omega

/-- The fields of a number make up its code, and with it its units. -/
theorem codeUnits_code (x : Binary64) :
    codeUnits x.code = if x.exponentField = 0 then x.fractionField
      else (hiddenBit + x.fractionField) * 2 ^ (x.exponentField - 1) := by
  rw [exponentField_eq, fractionField_eq]
  split
  next h =>
    rw [codeUnits, h, Nat.zero_sub, Nat.zero_mul, Nat.sub_zero, Nat.pow_zero, Nat.mul_one]
    unfold hiddenBit at *
    omega
  next h =>
    have hsig : x.code - (x.code / hiddenBit - 1) * hiddenBit
        = hiddenBit + x.code % hiddenBit := by
      unfold hiddenBit at *
      omega
    rw [codeUnits, hsig]

/-- A number is worth its units, with its sign. -/
theorem value_eq (x : Binary64) :
    x.value = (if x.isNegative then -1 else 1)
      * ((codeUnits x.code : ℚ) / (2 : ℚ) ^ unitExponent) := by
  have hunit : (2 : ℚ) ^ (1074 : ℤ) = (2 : ℚ) ^ unitExponent := zpow_ofNat 2 1074
  have hmagnitude : (codeUnits x.code : ℚ) / (2 : ℚ) ^ unitExponent
      = if x.exponentField = 0 then x.fractionField * (2 : ℚ) ^ (-1074 : ℤ)
        else (2 ^ 52 + x.fractionField) * (2 : ℚ) ^ ((x.exponentField : ℤ) - 1075) := by
    rw [codeUnits_code]
    split
    next => rw [zpow_neg, hunit, div_eq_mul_inv]
    next h =>
      have hexp : ((x.exponentField : ℤ) - 1075) = ((x.exponentField - 1 : ℕ) : ℤ) - 1074 := by
        omega
      rw [hexp, zpow_sub₀ two_ne_zero, hunit, zpow_natCast, hiddenBit, mul_div_assoc']
      push_cast
      rfl
  rw [value, hmagnitude]
  cases x.isNegative with
  | true => exact (neg_one_mul _).symm
  | false => exact (one_mul _).symm

theorem value_of_not_isNegative {x : Binary64} (h : x.isNegative = false) :
    x.value = (codeUnits x.code : ℚ) / (2 : ℚ) ^ unitExponent := by
  rw [value_eq, h, if_neg Bool.false_ne_true, one_mul]

/-- Numbers that are not negative are ordered as their codes are. -/
theorem value_lt_value_iff {x y : Binary64} (hx : x.isNegative = false)
    (hy : y.isNegative = false) : x.value < y.value ↔ x.code < y.code := by
  have hunit : (0 : ℚ) < (2 : ℚ) ^ unitExponent := by positivity
  rw [value_of_not_isNegative hx, value_of_not_isNegative hy, div_lt_div_iff_of_pos_right hunit,
    Nat.cast_lt, codeUnits_strictMono.lt_iff_lt]

/-- Two numbers of one sign and one code are the same. -/
theorem eq_of_code_eq {x y : Binary64} (hsign : x.isNegative = y.isNegative)
    (hcode : x.code = y.code) : x = y := by
  rw [← x.ofSign_isNegative_code, hsign, hcode, y.ofSign_isNegative_code]

theorem eq_of_value_eq {x y : Binary64} (hx : x.isNegative = false) (hy : y.isNegative = false)
    (h : x.value = y.value) : x = y := by
  have hlt : ¬ x.code < y.code := fun hlt => (ne_of_lt ((value_lt_value_iff hx hy).2 hlt)) h
  have hgt : ¬ y.code < x.code := fun hgt => (ne_of_gt ((value_lt_value_iff hy hx).2 hgt)) h
  exact eq_of_code_eq (hx.trans hy.symm) (Nat.le_antisymm (Nat.not_lt.1 hgt) (Nat.not_lt.1 hlt))

/-! ## Correct rounding -/

/-- The number `x` is `q`, rounded. -/
structure IsRounded (q : ℚ) (x : Binary64) : Prop where
  notNegative : x.isNegative = false
  notNaN : x.isNaN = false
  /-- Infinity stands for what lies beyond the middle between the greatest finite number and the
  next one that a greater exponent would give, and for that middle itself. -/
  infinite : x.isInfinite = true ↔ (2 : ℚ) ^ 1024 - (2 : ℚ) ^ 970 ≤ q
  nearest : x.isFinite = true → ∀ y : Binary64, y.isFinite = true →
    |q - x.value| ≤ |q - y.value|
  even : x.isFinite = true → ∀ y : Binary64, y.isFinite = true → y ≠ x →
    |q - y.value| = |q - x.value| → x.fractionField % 2 = 0

/-- What is rounded to a finite number lies below the bound of infinity. -/
theorem IsRounded.isFinite_iff {q : ℚ} {x : Binary64} (h : IsRounded q x) :
    x.isFinite = true ↔ q < (2 : ℚ) ^ 1024 - (2 : ℚ) ^ 970 := by
  rw [Binary64.isFinite_iff, ← not_le, ← h.infinite, Bool.not_eq_true]
  exact and_iff_right h.notNaN

section

variable {a b : Nat}

/-- The distance of a number from a quotient, in codes. -/
theorem abs_sub_value (hb : 0 < b) {x : Binary64} (h : x.isNegative = false) :
    |(a / b : ℚ) - x.value|
      = (distance (a * 2 ^ unitExponent) b x.code : ℚ) / (b * (2 : ℚ) ^ unitExponent) := by
  have hunit : (0 : ℚ) < (2 : ℚ) ^ unitExponent := by positivity
  have hb' : (0 : ℚ) < b := by exact_mod_cast hb
  have hsub : (a / b : ℚ) - x.value
      = (a * (2 : ℚ) ^ unitExponent - codeUnits x.code * b) / (b * (2 : ℚ) ^ unitExponent) := by
    rw [value_of_not_isNegative h]
    field_simp
  rw [hsub, abs_div, abs_of_pos (mul_pos hb' hunit), distance, Nat.cast_natAbs]
  push_cast
  rfl

theorem abs_sub_value_le_iff (hb : 0 < b) {x y : Binary64} (hx : x.isNegative = false)
    (hy : y.isNegative = false) :
    |(a / b : ℚ) - x.value| ≤ |(a / b : ℚ) - y.value| ↔
      distance (a * 2 ^ unitExponent) b x.code ≤ distance (a * 2 ^ unitExponent) b y.code := by
  have hb' : (0 : ℚ) < b := by exact_mod_cast hb
  rw [abs_sub_value hb hx, abs_sub_value hb hy, div_le_div_iff_of_pos_right (by positivity),
    Nat.cast_le]

/-- The greatest finite code is odd, and infinity has the next one. -/
theorem codeUnits_greatest :
    (infinityCode - 1) % 2 = 1 ∧ infinityCode - 1 + 1 = infinityCode ∧
      codeUnits (infinityCode - 1) + codeUnits infinityCode
        = (2 ^ (54 : Nat) - 1) * 2 ^ (2045 : Nat) := by
  have hgreatest : codeUnits (2045 * hiddenBit + (2 * hiddenBit - 1)) = _ :=
    codeUnits_mul_add (.inr (by decide)) (by decide)
  have hinfinity : codeUnits (2045 * hiddenBit + 2 * hiddenBit) = _ :=
    codeUnits_mul_add (.inr (by decide)) (by decide)
  have hgreatest' : 2045 * hiddenBit + (2 * hiddenBit - 1) = infinityCode - 1 := by decide
  have hinfinity' : 2045 * hiddenBit + 2 * hiddenBit = infinityCode := by decide
  have hsum : 2 * hiddenBit - 1 + 2 * hiddenBit = 2 ^ (54 : Nat) - 1 := by decide
  refine ⟨by decide, by decide, ?_⟩
  rw [← hgreatest', ← hinfinity', hgreatest, hinfinity, ← Nat.add_mul, hsum]

/-- Infinity begins in the middle between the greatest finite number and the next one that a greater
exponent would give. -/
theorem infinityCode_le_iff (hb : 0 < b) :
    infinityCode ≤ unboundedCode (a * 2 ^ unitExponent) b ↔
      (2 : ℚ) ^ 1024 - (2 : ℚ) ^ 970 ≤ a / b := by
  obtain ⟨hodd, hnext, hmiddle⟩ := codeUnits_greatest
  have hexp : 2045 = 970 + (unitExponent + 1) := by decide
  have hsucc : ∀ n : Nat, 2 ^ (n + 1) = 2 * 2 ^ n := fun _ => Nat.pow_succ'
  have hunit : 2 ^ (2045 : Nat) = 2 ^ (970 : Nat) * (2 * 2 ^ unitExponent) := by
    rw [hexp, Nat.pow_add, hsucc unitExponent]
  have hthreshold : (2 : ℚ) ^ 1024 - (2 : ℚ) ^ 970
      = (((2 ^ (54 : Nat) - 1) * 2 ^ (970 : Nat) : Nat) : ℚ) := by
    have hcast : ∀ i j : Nat, (2 : ℚ) ^ (i + j) - (2 : ℚ) ^ j
        = (((2 ^ i - 1) * 2 ^ j : Nat) : ℚ) := by
      intro i j
      rw [Nat.cast_mul, Nat.cast_sub Nat.one_le_two_pow, sub_mul, pow_add, Nat.cast_one, one_mul]
      push_cast
      rfl
    exact hcast 54 970
  have hb' : (0 : ℚ) < b := by exact_mod_cast hb
  have hlt := (isNearestCode_unboundedCode hb (a := a * 2 ^ unitExponent)).lt_iff hb hodd
  rw [hnext, hmiddle] at hlt
  have hcancel : ∀ m p u : Nat, 0 < u →
      (m * (p * (2 * u)) * b ≤ 2 * (a * u) ↔ m * p * b ≤ a) := by
    intro m p u hu
    have hleft : m * (p * (2 * u)) * b = m * p * b * (2 * u) := by ac_rfl
    have hright : 2 * (a * u) = a * (2 * u) := by ac_rfl
    rw [hleft, hright]
    exact Nat.mul_le_mul_right_iff (Nat.mul_pos Nat.two_pos hu)
  have hscaled := hcancel (2 ^ (54 : Nat) - 1) (2 ^ (970 : Nat)) _ (Nat.two_pow_pos unitExponent)
  rw [← hunit, ← hlt] at hscaled
  rw [hthreshold, le_div_iff₀ hb', ← Nat.cast_mul, Nat.cast_le, ← hscaled]
  omega

/-- The number that is found for a quotient is the cut one of the nearest code. -/
theorem code_ofRatio_eq_min (a b : Nat) :
    (ofRatio a b).code = min infinityCode (unboundedCode (a * 2 ^ unitExponent) b) := by
  rw [code_ofRatio, nearestCode_eq_min]

theorem isInfinite_ofRatio_iff (hb : 0 < b) :
    (ofRatio a b).isInfinite = true ↔ (2 : ℚ) ^ 1024 - (2 : ℚ) ^ 970 ≤ a / b := by
  rw [← infinityCode_le_iff hb, isInfinite, code_ofRatio_eq_min, decide_eq_true_eq]
  omega

/-- A quotient that is rounded to a finite number is rounded to that of the nearest code. -/
theorem code_ofRatio_of_isFinite (h : (ofRatio a b).isFinite = true) :
    (ofRatio a b).code = unboundedCode (a * 2 ^ unitExponent) b := by
  have hlt : (ofRatio a b).code < infinityCode := of_decide_eq_true h
  rw [code_ofRatio_eq_min] at hlt ⊢
  omega

/-- A number is even as its code is. -/
theorem fractionField_mod_two (x : Binary64) : x.fractionField % 2 = x.code % 2 := by
  rw [fractionField_eq]
  unfold hiddenBit
  omega

theorem isNearestCode_code_ofRatio (hb : 0 < b) (h : (ofRatio a b).isFinite = true) :
    IsNearestCode (a * 2 ^ unitExponent) b (ofRatio a b).code := by
  rw [code_ofRatio_of_isFinite h]
  exact isNearestCode_unboundedCode hb

/-! ### Numbers with a sign -/

theorem value_ofCode_zero : (ofCode 0).value = 0 := by
  have hcode : (ofCode 0).code = 0 := code_ofCode (by decide)
  have hunits : codeUnits 0 = 0 := by simp [codeUnits]
  rw [value_of_not_isNegative (isNegative_ofCode (by decide)), hcode, hunits, Nat.cast_zero,
    zero_div]

theorem value_nonpos_of_isNegative {y : Binary64} (h : y.isNegative = true) : y.value ≤ 0 := by
  have hunits : (0 : ℚ) ≤ (codeUnits y.code : ℚ) / (2 : ℚ) ^ unitExponent := by positivity
  rw [value_eq, if_pos h]
  linarith

/-- A negative number is no nearer to what is not negative than zero is, and as near only if it is
worth nothing. -/
theorem abs_sub_value_of_isNegative {q : ℚ} (hq : 0 ≤ q) {y : Binary64}
    (h : y.isNegative = true) :
    |q - (ofCode 0).value| ≤ |q - y.value| ∧
      (|q - y.value| ≤ |q - (ofCode 0).value| → |q - (ofCode 0).value| = |q - y.value|) := by
  have hy := value_nonpos_of_isNegative h
  have hle : |q - (ofCode 0).value| ≤ |q - y.value| := by
    rw [value_ofCode_zero, sub_zero, abs_of_nonneg hq, abs_of_nonneg (by linarith)]
    linarith
  exact ⟨hle, le_antisymm hle⟩

/-! ### The number that is found -/

/-- **The number that is found for a quotient is the quotient rounded.** -/
theorem isRounded_ofRatio (hb : 0 < b) : IsRounded (a / b) (ofRatio a b) := by
  have hsign := isNegative_ofRatio a b
  have hq : (0 : ℚ) ≤ a / b := by positivity
  have hzero : (ofCode 0).isNegative = false := isNegative_ofCode (by decide)
  have hnearest : (ofRatio a b).isFinite = true → ∀ y : Binary64, y.isNegative = false →
      |(a / b : ℚ) - (ofRatio a b).value| ≤ |(a / b : ℚ) - y.value| := fun hfinite y hy =>
    (abs_sub_value_le_iff hb hsign hy).2 ((isNearestCode_code_ofRatio hb hfinite).nearest _)
  have heven : (ofRatio a b).isFinite = true → ∀ y : Binary64, y.isNegative = false →
      |(a / b : ℚ) - y.value| = |(a / b : ℚ) - (ofRatio a b).value| → y ≠ ofRatio a b →
      (ofRatio a b).fractionField % 2 = 0 := by
    intro hfinite y hy htie hne
    have hcode : y.code ≠ (ofRatio a b).code := fun h => hne (eq_of_code_eq (hy.trans hsign.symm) h)
    have hle := (abs_sub_value_le_iff hb hy hsign).1 (le_of_eq htie)
    have hge := (abs_sub_value_le_iff hb hsign hy).1 (ge_of_eq htie)
    rw [fractionField_mod_two]
    exact (isNearestCode_code_ofRatio hb hfinite).even _ hcode (Nat.le_antisymm hle hge)
  refine ⟨hsign, isNaN_ofRatio a b, isInfinite_ofRatio_iff hb, ?_, ?_⟩
  · intro hfinite y _
    cases hy : y.isNegative with
    | false => exact hnearest hfinite y hy
    | true => exact (hnearest hfinite _ hzero).trans (abs_sub_value_of_isNegative hq hy).1
  · intro hfinite y _ hne htie
    cases hy : y.isNegative with
    | false => exact heven hfinite y hy htie hne
    | true =>
      -- a negative number is as near only if zero is, too
      have hle : |(a / b : ℚ) - y.value| ≤ |(a / b : ℚ) - (ofCode 0).value| :=
        (le_of_eq htie).trans (hnearest hfinite _ hzero)
      have htie' := ((abs_sub_value_of_isNegative hq hy).2 hle).trans htie
      by_cases hx : ofCode 0 = ofRatio a b
      · rw [← hx, fractionField_mod_two, code_ofCode (by decide)]
      · exact heven hfinite _ hzero htie' hx

/-- A quotient is rounded to one number only. -/
theorem IsRounded.eq_ofRatio (hb : 0 < b) {x : Binary64} (h : IsRounded (a / b) x) :
    x = ofRatio a b := by
  have hfound := isRounded_ofRatio hb (a := a)
  have hsign : x.isNegative = (ofRatio a b).isNegative :=
    h.notNegative.trans hfound.notNegative.symm
  refine eq_of_code_eq hsign ?_
  have hinfinite : x.isInfinite = true ↔ (ofRatio a b).isInfinite = true :=
    h.infinite.trans hfound.infinite.symm
  have hnan := h.notNaN
  have hnan' := hfound.notNaN
  simp only [isInfinite, isNaN, decide_eq_true_eq, decide_eq_false_iff_not] at hinfinite hnan hnan'
  by_cases hlt : x.code < infinityCode
  · have hx : x.isFinite = true := decide_eq_true hlt
    have hx' : (ofRatio a b).isFinite = true := decide_eq_true (by omega)
    have htie := le_antisymm (h.nearest hx _ hx') (hfound.nearest hx' _ hx)
    by_contra hne
    have heven := h.even hx _ hx' (fun heq => hne (congrArg code heq.symm)) htie.symm
    have hle := (abs_sub_value_le_iff hb h.notNegative hfound.notNegative).1 (le_of_eq htie)
    have hge := (abs_sub_value_le_iff hb hfound.notNegative h.notNegative).1 (ge_of_eq htie)
    rw [fractionField_mod_two] at heven
    exact hne ((isNearestCode_code_ofRatio hb hx').eq_of_even hb heven (Nat.le_antisymm hle hge))
  · omega

theorem isRounded_iff (hb : 0 < b) {x : Binary64} :
    IsRounded (a / b) x ↔ x = ofRatio a b :=
  ⟨fun h => h.eq_ofRatio hb, fun h => h ▸ isRounded_ofRatio hb⟩

end

end Binary64

end Lox
