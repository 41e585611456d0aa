import Lox.Decimal.Basic

/-!
# Equal quotients

What is rounded is a quotient, however it is written: as a fraction in other terms
(`Binary64.nearestCode_congr`), or as a decimal with zeros behind its digits
(`Decimal.toBinary64_appendZeros`).
-/

set_option autoImplicit false

namespace Lox

-- Powers of naturals are taken by the arithmetic of naturals, whatever else is imported.
attribute [local instance(2000)] instPowNat

/-! ## Fractions -/

theorem roundDiv_mul_mul_right (tie : Tie) (a b : Nat) {k : Nat} (hk : 0 < k) :
    roundDiv tie (a * k) (b * k) = roundDiv tie a b := by
  have hless : b * k < 2 * (a % b * k) ↔ b < 2 * (a % b) := by
    rw [← Nat.mul_assoc, Nat.mul_lt_mul_right hk]
  have htie : 2 * (a % b * k) = b * k ↔ 2 * (a % b) = b := by
    rw [← Nat.mul_assoc, Nat.mul_left_inj (Nat.ne_of_gt hk)]
  unfold roundDiv
  rw [Nat.mul_mod_mul_right, Nat.mul_div_mul_right _ _ hk]
  simp only [hless, htie]

namespace Binary64

theorem nearestCode_mul_mul_right (a b : Nat) {k : Nat} (hk : 0 < k) :
    nearestCode (a * k) (b * k) = nearestCode a b := by
  have hcomm : ∀ m n : Nat, m * k * 2 ^ n = m * 2 ^ n * k := fun m n => Nat.mul_right_comm m k _
  unfold nearestCode
  simp only [hcomm, Nat.mul_div_mul_right _ _ hk, roundDiv_mul_mul_right _ _ _ hk]

/-- Equal quotients are rounded to the same number. -/
theorem nearestCode_congr {a b c d : Nat} (hb : 0 < b) (hd : 0 < d) (h : a * d = c * b) :
    nearestCode a b = nearestCode c d := by
  rw [← nearestCode_mul_mul_right a b hd, h, Nat.mul_comm b d, nearestCode_mul_mul_right c d hb]

/-! ## Sign and code -/

/-- The number with a given sign and code. -/
def ofSign (negative : Bool) (code : Nat) : Binary64 :=
  ⟨UInt64.ofNat (if negative then signBit + code else code)⟩

/-- A number is made up by its sign and its code. -/
theorem ofSign_isNegative_code (x : Binary64) : ofSign x.isNegative x.code = x := by
  have hlt : x.bits.toNat < 2 ^ (64 : Nat) := x.bits.toNat_lt
  have hbits : (if x.isNegative then signBit + x.code else x.code) = x.bits.toNat := by
    unfold code
    split
    next h =>
      have h : signBit ≤ x.bits.toNat := of_decide_eq_true h
      unfold signBit at h ⊢
      omega
    next h =>
      have h : ¬ signBit ≤ x.bits.toNat := fun hle => h (decide_eq_true hle)
      exact Nat.mod_eq_of_lt (Nat.lt_of_not_le h)
  rw [ofSign, hbits, UInt64.ofNat_toNat]

end Binary64

namespace Decimal

/-! ## Decimals -/

theorem toBinary64_congr {d e : Decimal}
    (h : d.numerator * e.denominator = e.numerator * d.denominator) :
    d.toBinary64 = e.toBinary64 := by
  rw [toBinary64, toBinary64, Binary64.ofRatio, Binary64.ofRatio,
    Binary64.nearestCode_congr d.denominator_pos e.denominator_pos h]

/-- Zeros behind the digits, which are taken off by the exponent, change nothing. -/
theorem toBinary64_appendZeros (d : Decimal) (n : Nat) :
    (⟨d.coefficient * 10 ^ n, d.exponent - n⟩ : Decimal).toBinary64 = d.toBinary64 := by
  refine toBinary64_congr ?_
  have hexp : n + (d.exponent - n).toNat + (-d.exponent).toNat
      = d.exponent.toNat + (-(d.exponent - n)).toNat := by omega
  simp only [numerator, denominator]
  rw [Nat.mul_assoc, Nat.mul_assoc, Nat.mul_assoc, ← Nat.pow_add, ← Nat.pow_add, ← Nat.pow_add,
    ← Nat.add_assoc, hexp]

theorem digits_ne_nil (d : Decimal) : d.digits ≠ [] :=
  Nat.toDigits_ne_nil

theorem isDigit_of_mem_digits {d : Decimal} {c : Char} (h : c ∈ d.digits) : c.isDigit = true :=
  Nat.isDigit_of_mem_toDigits (by decide) (by decide) h

end Decimal

end Lox
