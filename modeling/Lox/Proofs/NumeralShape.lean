import Lox.Proofs.Display

/-!
# The shape of numerals

Every numeral is digits without a zero in front, digits behind a point, and a power of ten, of which
the last two may be missing, whatever the style decides (`NumeralStyle.exists_parts`). A zero could
only get in front if zero were not written in the ones, and the shortest decimal of zero is
(`Decimal.leadingExponent_shortest_of_eq_zero`).
-/

set_option autoImplicit false

namespace Lox

-- Powers of naturals are taken by the arithmetic of naturals, whatever else is imported.
attribute [local instance(2000)] instPowNat

/-! ## Digits -/

theorem isDigits_toDigits (n : Nat) : IsDigits (Nat.toDigits 10 n) :=
  ⟨Nat.toDigits_ne_nil, fun _ hc => Nat.isDigit_of_mem_toDigits (by decide) (by decide) hc⟩

/-- A number that is not zero is written without a zero in front. -/
theorem head?_toDigits {n : Nat} (h : 0 < n) : (Nat.toDigits 10 n).head? ≠ some '0' := by
  induction n using Nat.strongRecOn with
  | ind n ih =>
    rw [Nat.toDigits_eq_if (by decide)]
    split
    next hlt =>
      have hdigit : ∀ m < 10, 0 < m → [Nat.digitChar m].head? ≠ some '0' := by decide
      exact hdigit n hlt h
    next hge =>
      rw [List.head?_append_of_ne_nil _ Nat.toDigits_ne_nil]
      exact ih (n / 10) (by omega) (by omega)

namespace Decimal

theorem isDigits_digits (d : Decimal) : IsDigits d.digits :=
  isDigits_toDigits d.coefficient

theorem digits_of_coefficient_eq_zero {d : Decimal} (h : d.coefficient = 0) :
    d.digits = ['0'] := by
  rw [digits, h]
  rfl

/-- Only zero has a shortest decimal that is zero, and that is one digit, which counts ones. -/
theorem leadingExponent_shortest_of_eq_zero (tie : Tie) {x : Binary64} (hx : x.isFinite = true)
    (hzero : (shortest tie x).coefficient = 0) : (shortest tie x).leadingExponent = 0 := by
  have hread : (shortest tie x).toBinary64.code = x.code :=
    of_decide_eq_true (readsBack_shortest tie hx)
  have hround : (shortest tie x).toBinary64.code = (Binary64.ofCode 0).code := by
    rw [toBinary64, Binary64.code_ofRatio]
    refine Binary64.nearestCode_of_units (denominator_pos _) (by decide) ?_
    have hunits : (Binary64.ofCode 0).units = 0 := by decide
    rw [hunits, numerator, hzero, Nat.zero_mul, Nat.zero_mul, Nat.zero_mul]
  have hcode : x.isZero = true := by
    rw [Binary64.isZero, ← hread, hround]
    decide
  rw [shortest, if_pos hcode]
  decide

end Decimal

/-! ## Parts -/

/-- Digits without a zero in front of another digit. -/
structure IsWholePart (s : List Char) : Prop where
  isDigits : IsDigits s
  noZero : s.head? = some '0' → s = ['0']

theorem isWholePart_toDigits (n : Nat) : IsWholePart (Nat.toDigits 10 n) where
  isDigits := isDigits_toDigits n
  noZero hhead := by
    rcases Nat.eq_zero_or_pos n with rfl | hpos
    · rfl
    · exact absurd hhead (head?_toDigits hpos)

theorem isWholePart_singleton {c : Char} (h : c.isDigit = true) : IsWholePart [c] where
  isDigits := ⟨List.cons_ne_nil c [], by simpa using h⟩
  noZero hzero := by rw [Option.some.inj hzero]

/-- If the point comes right behind a zero, there is no other digit before it. -/
theorem IsDigits.eq_zero_of_append_point {whole fraction rest : List Char} (h : IsDigits whole)
    (htext : '0' :: '.' :: rest = whole ++ '.' :: fraction) : whole = ['0'] := by
  obtain ⟨c, whole, rfl⟩ := List.exists_cons_of_ne_nil h.1
  rw [List.cons_append, List.cons.injEq] at htext
  obtain ⟨rfl, htext⟩ := htext
  cases whole with
  | nil => rfl
  | cons d whole =>
    rw [List.cons_append, List.cons.injEq] at htext
    have hd := h.2 d (by simp)
    rw [← htext.1] at hd
    contradiction

namespace NumeralStyle

variable {d : Decimal}

/-- Around a point there are digits on both sides, and no zero in front of the digits of a decimal
that is at least one. -/
theorem exists_wholePart (hzero : d.coefficient = 0 → d.leadingExponent = 0) :
    ∃ whole fraction, positional d.digits d.leadingExponent = whole ++ '.' :: fraction ∧
      IsWholePart whole ∧ IsDigits fraction := by
  obtain ⟨whole, fraction, htext, hwhole, hfraction, -⟩ :=
    exists_positional d.isDigits_digits d.leadingExponent
  refine ⟨whole, fraction, htext, ⟨hwhole, fun hhead => ?_⟩, hfraction⟩
  by_cases hneg : d.leadingExponent < 0
  · rw [positional, if_pos hneg] at htext
    exact hwhole.eq_zero_of_append_point htext
  by_cases hcoefficient : d.coefficient = 0
  · rw [Decimal.digits_of_coefficient_eq_zero hcoefficient, hzero hcoefficient] at htext
    exact hwhole.eq_zero_of_append_point htext
  · -- the first digit stands in front, and it is no zero
    have hfirst := congrArg List.head? htext
    rw [List.head?_append_of_ne_nil _ hwhole.1, hhead, positional, if_neg hneg] at hfirst
    obtain ⟨c, digits, hdigits⟩ := List.exists_cons_of_ne_nil d.digits_ne_nil
    have hnoZero := head?_toDigits (Nat.pos_of_ne_zero hcoefficient)
    rw [← Decimal.digits, hdigits] at hnoZero
    rw [hdigits] at hfirst
    exact absurd hfirst hnoZero

/-- The text of a power of ten, or nothing if there is none. -/
inductive IsPower (style : NumeralStyle) : List Char → Prop where
  | none : IsPower style []
  | signed {sign digits : List Char} (isSign : sign = ['-'] ∨ sign = style.plusSign)
      (isDigits : IsDigits digits) : IsPower style ('e' :: sign ++ digits)

/-- The parts of the numeral of a decimal. -/
theorem exists_parts (style : NumeralStyle)
    (hzero : d.coefficient = 0 → d.leadingExponent = 0) :
    ∃ whole fraction power, style.decimal d = whole ++ (Json.pointed fraction ++ power) ∧
      IsWholePart whole ∧ (∀ c ∈ fraction, c.isDigit = true) ∧ style.IsPower power := by
  unfold decimal
  split
  · obtain ⟨whole, fraction, htext, hwhole, hfraction⟩ := exists_wholePart hzero
    refine ⟨whole, fraction, [], ?_, hwhole, hfraction.2, .none⟩
    rw [htext, Json.pointed_of_ne_nil hfraction.1, List.append_nil]
  · obtain ⟨c, digits, hdigits⟩ := List.exists_cons_of_ne_nil d.digits_ne_nil
    obtain ⟨hc, htail⟩ := List.forall_mem_cons.1 (hdigits ▸ d.isDigits_digits.2)
    have hpower : style.IsPower ('e' :: (if d.leadingExponent < 0 then ['-'] else style.plusSign)
        ++ Nat.toDigits 10 d.leadingExponent.natAbs) := by
      refine .signed ?_ (isDigits_toDigits _)
      split
      · exact .inl rfl
      · exact .inr rfl
    refine ⟨[c], digits, _, ?_, isWholePart_singleton hc, htail, hpower⟩
    rw [scientific, hdigits, List.append_assoc, List.append_assoc]
    rfl

end NumeralStyle

end Lox
