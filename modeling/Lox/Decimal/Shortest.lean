import Lox.Decimal.Basic

/-!
# The shortest decimal that reads back

Every finite binary number is a decimal with finitely many digits (`Decimal.exact`). Most of them
are not needed: `Decimal.shortest` finds the fewest digits whose decimal still has the number as its
nearest, and of those the decimal closest to the number. It goes through the decimal grids from the
coarsest to the finest and stops at the first with a point that reads back; a grid can have such a
point only beside the number, so the two neighbours are all that is tried.

A number halfway between two neighbours that both read back goes as the caller's `Tie` says.
-/

set_option autoImplicit false

namespace Lox

-- Powers of naturals are taken by the arithmetic of naturals, whatever else is imported.
attribute [local instance(2000)] instPowNat

namespace Decimal

/-- The magnitude of a finite number, digit for digit. One of the significand is worth `2 ^ n` or
`2 ^ (-n)`, and the latter is `5 ^ n · 10 ^ (-n)`; of the two powers below one is `1`. -/
def exact (x : Binary64) : Decimal where
  coefficient :=
    x.significand * 2 ^ (x.scale - Binary64.unitExponent) * 5 ^ (Binary64.unitExponent - x.scale)
  exponent := -(Binary64.unitExponent - x.scale : Nat)

/-- Whether the magnitude of `x` is the number nearest to `d`. -/
def readsBack (x : Binary64) (d : Decimal) : Bool :=
  d.toBinary64.code = x.code

/-- A point beside the magnitude of `x` that reads back, on the grid that drops the last `places` of
its digits: the closer neighbour if it does, else the other. -/
def onGrid? (tie : Tie) (x : Binary64) (places : Nat) : Option Decimal :=
  let d := exact x
  let below : Decimal := ⟨d.coefficient / 10 ^ places, d.exponent + places⟩
  let above : Decimal := ⟨below.coefficient + 1, below.exponent⟩
  let closer := roundDiv tie d.coefficient (10 ^ places)
  (if closer = below.coefficient then [below, above] else [above, below]).find? (readsBack x)

/-- The shortest decimal that reads back as the magnitude of a finite number: what is found on the
first of the grids, the coarsest of which drops all digits and the finest none. -/
def shortest (tie : Tie) (x : Binary64) : Decimal :=
  if x.isZero then ⟨0, 0⟩
  else
    let grids := (List.range ((exact x).digits.length + 1)).reverse
    (grids.findSome? (onGrid? tie x)).getD (exact x)

/-- The digits of a number are worth its units. -/
theorem numerator_exact (x : Binary64) :
    (exact x).numerator * 2 ^ Binary64.unitExponent = x.units * (exact x).denominator := by
  have hexp : (exact x).exponent.toNat = 0 := by simp [exact]
  have hneg : (-(exact x).exponent).toNat = Binary64.unitExponent - x.scale := by simp [exact]
  unfold numerator denominator
  rw [hexp, hneg, Nat.pow_zero, Nat.mul_one]
  unfold exact Binary64.units
  dsimp only
  generalize Binary64.unitExponent = n
  have hpow : 2 ^ (x.scale - n) * 2 ^ n = 2 ^ x.scale * 2 ^ (n - x.scale) := by
    rw [← Nat.pow_add, ← Nat.pow_add]
    congr 1
    omega
  have hten : 10 ^ (n - x.scale) = 2 ^ (n - x.scale) * 5 ^ (n - x.scale) := Nat.mul_pow 2 5 _
  calc
    _ = x.significand * (2 ^ (x.scale - n) * 2 ^ n) * 5 ^ (n - x.scale) := by ac_rfl
    _ = _ := by rw [hpow, hten]; ac_rfl

/-- Every finite number reads back from all its digits. -/
theorem readsBack_exact {x : Binary64} (hx : x.isFinite = true) : readsBack x (exact x) = true := by
  unfold readsBack toBinary64
  rw [Binary64.code_ofRatio,
    Binary64.nearestCode_of_units (denominator_pos _) hx (numerator_exact x)]
  exact decide_eq_true rfl

/-- A point that a grid gives reads back. -/
theorem readsBack_of_onGrid? {tie : Tie} {x : Binary64} {places : Nat} {d : Decimal}
    (h : onGrid? tie x places = some d) : readsBack x d = true :=
  List.find?_some h

/-- The shortest decimal of a finite number reads back as its magnitude. -/
theorem readsBack_shortest (tie : Tie) {x : Binary64} (hx : x.isFinite = true) :
    readsBack x (shortest tie x) = true := by
  unfold shortest
  split
  next h =>
    have hcode : x.code = 0 := by simpa [Binary64.isZero] using h
    have hunits : x.units = 0 := by simp [Binary64.units, Binary64.significand, hcode]
    unfold readsBack toBinary64
    rw [Binary64.code_ofRatio, Binary64.nearestCode_of_units (denominator_pos _) hx (by
      rw [hunits, Nat.zero_mul, numerator, Nat.zero_mul, Nat.zero_mul])]
    exact decide_eq_true rfl
  next =>
    dsimp only
    cases h : (List.range ((exact x).digits.length + 1)).reverse.findSome? (onGrid? tie x) with
    | none => exact readsBack_exact hx
    | some d =>
      obtain ⟨places, _, hd⟩ := List.exists_of_findSome?_eq_some h
      exact readsBack_of_onGrid? hd

end Decimal

end Lox
