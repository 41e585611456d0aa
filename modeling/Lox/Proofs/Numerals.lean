import Lox.Proofs.Alone
import Lox.Proofs.Binary64.Rounding
import Lox.Proofs.Json.Numeral

/-!
# The values of numerals

What number a lexeme of digits means, place by place (`numeralValue`), and that the value of its
token is that number, rounded once (`numbers_rounded`), however many digits there are. The digits of
a lexeme make one quotient of natural numbers, and only this quotient is rounded.
-/

set_option autoImplicit false

namespace Lox

-- Powers of naturals are taken by the arithmetic of naturals, whatever else is imported.
attribute [local instance(2000)] instPowNat

/-! ## Digits in their places -/

/-- The number that a digit stands for. -/
def digitValue (c : Char) : Nat :=
  c.toNat - '0'.toNat

/-- The value of digits before a point: the last one counts ones. -/
def wholeValue : List Char → ℚ
  | [] => 0
  | c :: s => digitValue c * 10 ^ s.length + wholeValue s

/-- The value of digits behind a point: the first one counts tenths. -/
def fractionValue : List Char → ℚ
  | [] => 0
  | c :: s => (digitValue c + fractionValue s) / 10

/-- The value of digits, or of digits around a point. -/
def numeralValue (text : List Char) : ℚ :=
  wholeValue (text.takeWhile (· ≠ '.')) + fractionValue ((text.dropWhile (· ≠ '.')).drop 1)

theorem numeralValue_whole {digits : List Char} (h : IsDigits digits) :
    numeralValue digits = wholeValue digits := by
  have hpoint : ∀ c ∈ digits, decide (c ≠ '.') = true := fun c hc =>
    decide_eq_true fun heq => h.point_notMem (heq ▸ hc)
  rw [numeralValue, List.takeWhile_eq_self_iff.2 hpoint, List.dropWhile_eq_nil_iff.2 hpoint,
    List.drop_nil, fractionValue, add_zero]

theorem numeralValue_fractional {whole : List Char} (h : IsDigits whole) (fraction : List Char) :
    numeralValue (whole ++ '.' :: fraction) = wholeValue whole + fractionValue fraction := by
  have hpoint : ∀ c ∈ whole, decide (c ≠ '.') = true := fun c hc =>
    decide_eq_true fun heq => h.point_notMem (heq ▸ hc)
  rw [numeralValue, List.takeWhile_append_of_pos hpoint, List.dropWhile_append_of_pos hpoint]
  simp

/-! ## One quotient -/

/-- The places before the point are those that a coefficient is read by. -/
theorem cast_ofDigitChars (s : List Char) : (Nat.ofDigitChars 10 s 0 : ℚ) = wholeValue s := by
  induction s with
  | nil => exact Nat.cast_zero
  | cons c s ih =>
    rw [Nat.ofDigitChars_cons, Nat.ofDigitChars_eq_ofDigitChars_zero, wholeValue, ← ih, digitValue,
      Nat.mul_zero, Nat.zero_add, Nat.mul_comm, Nat.cast_add, Nat.cast_mul, Nat.cast_pow,
      Nat.cast_ofNat]

theorem wholeValue_append (s t : List Char) :
    wholeValue (s ++ t) = wholeValue s * 10 ^ t.length + wholeValue t := by
  induction s with
  | nil => simp [wholeValue]
  | cons c s ih =>
    rw [List.cons_append, wholeValue, wholeValue, ih, List.length_append, pow_add, add_mul,
      mul_assoc, add_assoc]

/-- Behind a point, digits count by as many tens less as there are digits. -/
theorem fractionValue_eq (s : List Char) : fractionValue s = wholeValue s / 10 ^ s.length := by
  induction s with
  | nil => simp [wholeValue, fractionValue]
  | cons c s ih =>
    rw [fractionValue, wholeValue, ih, List.length_cons, pow_succ]
    field_simp

/-- The quotient that digits around a point are read as has the value of these digits. -/
theorem ratio_ofDigits (whole fraction : List Char) :
    ((Decimal.ofDigits whole fraction).numerator : ℚ)
        / (Decimal.ofDigits whole fraction).denominator
      = wholeValue whole + fractionValue fraction := by
  have hnumerator : (Decimal.ofDigits whole fraction).numerator
      = Nat.ofDigitChars 10 (whole ++ fraction) 0 := by
    simp [Decimal.numerator, Decimal.ofDigits]
  have hdenominator : (Decimal.ofDigits whole fraction).denominator = 10 ^ fraction.length := by
    simp [Decimal.denominator, Decimal.ofDigits]
  rw [hnumerator, hdenominator, cast_ofDigitChars, wholeValue_append, fractionValue_eq,
    Nat.cast_pow, Nat.cast_ofNat]
  field_simp

/-! ## The values of numbers -/

theorem literalOf_whole {digits : List Char} (h : IsDigits digits) :
    literalOf .number digits = .number (Decimal.ofDigits digits []).toBinary64 := by
  obtain ⟨htake, hdrop⟩ := Json.span_digits h.2 (s := []) (by simp [Json.EndsDigits])
  rw [List.append_nil] at htake hdrop
  rw [literalOf, htake, hdrop, List.drop_nil]

theorem literalOf_fractional {whole : List Char} (h : IsDigits whole) (fraction : List Char) :
    literalOf .number (whole ++ '.' :: fraction)
      = .number (Decimal.ofDigits whole fraction).toBinary64 := by
  obtain ⟨htake, hdrop⟩ := Json.span_digits h.2 (s := '.' :: fraction) (by simp [Json.EndsDigits])
  rw [literalOf, htake, hdrop, List.drop_succ_cons, List.drop_zero]

/-- The value of a lexeme of digits is that of a decimal that means what the lexeme means. -/
theorem IsLexeme.exists_decimal {text : List Char} (h : IsLexeme .number text) :
    ∃ d : Decimal, literalOf .number text = .number d.toBinary64 ∧
      (d.numerator / d.denominator : ℚ) = numeralValue text := by
  cases h with
  | whole digits =>
    refine ⟨_, literalOf_whole digits, ?_⟩
    rw [ratio_ofDigits, numeralValue_whole digits, fractionValue, add_zero]
  | fractional whole fraction =>
    refine ⟨_, literalOf_fractional whole _, ?_⟩
    rw [ratio_ofDigits, numeralValue_fractional whole]

/-- A value equals itself, unless it is no number. -/
theorem Literal.same_self {l : Literal} (h : ∀ x, l = .number x → x.isNaN = false) :
    l.same l = true := by
  cases l with
  | absent => rfl
  | string s => exact beq_self_eq_true s
  | number x => exact Binary64.sameNumber_self (h x rfl)

theorem Token.same_self {t : Token} (h : ∀ x, t.literal = .number x → x.isNaN = false) :
    t.same t = true := by
  simp [Token.same, Literal.same_self h]

/-- A value that is a number is that of a lexeme of digits. -/
theorem Token.IsSound.kind_eq_number {t : Token} (h : t.IsSound) {x : Binary64}
    (hx : t.literal = .number x) : t.kind = .number := by
  by_contra hnumber
  by_cases hstring : t.kind = .string
  · obtain ⟨body, -, -, hliteral⟩ := h.agreesWithLexeme.quoted hstring
    rw [hliteral] at hx
    contradiction
  · rw [h.agreesWithLexeme.absent hstring hnumber] at hx
    contradiction

/-- The value of a number is what its lexeme means, rounded, and no other number is that. So every
token of a scan equals itself. -/
theorem numbers_rounded {source : String} {t : Token} (ht : t ∈ (scan source).tokens) :
    (t.kind = .number → ∃ x, t.literal = .number x ∧
        ∀ y, Binary64.IsRounded (numeralValue t.lexeme.toList) y ↔ y = x) ∧
      t.same t = true := by
  have hsound := isSound_of_mem_tokens ht
  have hrounded : t.kind = .number → ∃ x, t.literal = .number x ∧
      ∀ y, Binary64.IsRounded (numeralValue t.lexeme.toList) y ↔ y = x := by
    intro hkind
    obtain ⟨d, hliteral, hvalue⟩ := (hsound.isLexeme hkind (by simp)).exists_decimal
    refine ⟨d.toBinary64, ?_, fun y => ?_⟩
    · rw [hsound.literal, hkind, hliteral]
    · rw [← hvalue]
      exact Binary64.isRounded_iff d.denominator_pos
  refine ⟨hrounded, Token.same_self fun x hx => ?_⟩
  obtain ⟨y, hy, hunique⟩ := hrounded (hsound.kind_eq_number hx)
  obtain rfl := Literal.number.inj (hx.symm.trans hy)
  exact ((hunique x).2 rfl).notNaN

/-- A number in the middle between two of 64 bits, with a digit far behind the point that decides:
it is rounded up, and without that digit it is rounded down, to the even one. -/
theorem numbers_rounded_at_middle :
    (⟨.number, "9007199254740993.00000000000000000001", .number ⟨0x4340000000000001⟩, 1, ⟨2, 39⟩⟩
        : Token) ∈ (scan "@ 9007199254740993.00000000000000000001 9007199254740993").tokens ∧
      (∀ y, Binary64.IsRounded (numeralValue "9007199254740993.00000000000000000001".toList) y ↔
        y = ⟨0x4340000000000001⟩) ∧
      ∀ y, Binary64.IsRounded (numeralValue "9007199254740993".toList) y ↔
        y = ⟨0x4340000000000000⟩ := by
  have hup : (⟨.number, "9007199254740993.00000000000000000001", .number ⟨0x4340000000000001⟩, 1,
      ⟨2, 39⟩⟩ : Token)
      ∈ (scan "@ 9007199254740993.00000000000000000001 9007199254740993").tokens := by
    decide +kernel
  have hdown : (⟨.number, "9007199254740993", .number ⟨0x4340000000000000⟩, 1, ⟨40, 56⟩⟩ : Token)
      ∈ (scan "@ 9007199254740993.00000000000000000001 9007199254740993").tokens := by
    decide +kernel
  obtain ⟨x, hx, hrounded⟩ := (numbers_rounded hup).1 rfl
  obtain ⟨z, hz, hrounded'⟩ := (numbers_rounded hdown).1 rfl
  obtain rfl := Literal.number.inj hx
  obtain rfl := Literal.number.inj hz
  exact ⟨hup, hrounded, hrounded'⟩

end Lox
