/-!
# Rounding a quotient of naturals

`roundDiv tie a b` is a whole number nearest to `a / b`; when two are equally near, `tie` says
which. It is always one of the two neighbours `a / b` and `a / b + 1` (`roundDiv_eq_or`).
-/

set_option autoImplicit false

namespace Lox

/-- What becomes of a quotient that lies halfway between two whole numbers. -/
inductive Tie where
  /-- The even neighbour is taken. -/
  | even
  /-- The upper neighbour is taken. -/
  | up
  deriving DecidableEq, Repr

/-- Whether a tie just above the whole number `lower` goes up. -/
def Tie.goesUp (tie : Tie) (lower : Nat) : Bool :=
  match tie with
  | .even => lower % 2 = 1
  | .up => true

/-- The quotient of `a` by `b` to the nearest whole number. -/
def roundDiv (tie : Tie) (a b : Nat) : Nat :=
  if b < 2 * (a % b) ∨ (2 * (a % b) = b ∧ tie.goesUp (a / b)) then a / b + 1 else a / b

theorem roundDiv_eq_or (tie : Tie) (a b : Nat) :
    roundDiv tie a b = a / b ∨ roundDiv tie a b = a / b + 1 := by
  unfold roundDiv
  split
  · exact .inr rfl
  · exact .inl rfl

/-- A quotient that is whole is not changed. -/
theorem roundDiv_mul (tie : Tie) (n : Nat) {b : Nat} (hb : 0 < b) : roundDiv tie (n * b) b = n := by
  unfold roundDiv
  rw [Nat.mul_mod_left, Nat.mul_div_cancel _ hb]
  rw [if_neg]
  omega

end Lox
