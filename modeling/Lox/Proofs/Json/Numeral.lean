import Lox.Proofs.Binary64.Quotient
import Lox.Proofs.Json.Lexemes
import Mathlib.Data.List.TakeWhile

/-!
# Reading numerals

A numeral is read as a decimal, its sign apart, and the decimal is rounded to the nearest number
(`numberOf?`). How a decimal is written does not matter then: zeros behind its digits change the
coefficient and the exponent, but not the quotient that is rounded
(`Decimal.toBinary64_appendZeros`). So a finite number is read back from its numeral, bit for bit
(`numberOf?_finite`).
-/

set_option autoImplicit false

namespace Lox

-- Powers of naturals are taken by the arithmetic of naturals, whatever else is imported.
attribute [local instance(2000)] instPowNat

namespace Json

/-! ## Reading -/

/-- The natural number that digits name. -/
def natOf? (s : List Char) : Option Nat :=
  if s ≠ [] ∧ s.all Char.isDigit then some (Nat.ofDigitChars 10 s 0) else none

/-- The digits behind a point that a text begins with, and what is behind them. -/
def fractionOf (s : List Char) : List Char × List Char :=
  match s with
  | '.' :: s => (s.takeWhile Char.isDigit, s.dropWhile Char.isDigit)
  | s => ([], s)

/-- The power of ten that a text names; without a text it is the power zero. -/
def exponentOf? : List Char → Option Int
  | [] => some 0
  | 'e' :: '-' :: s => (natOf? s).map fun n : Nat => -(n : Int)
  | 'e' :: '+' :: s => (natOf? s).map fun n : Nat => (n : Int)
  | _ => none

/-- The decimal that a numeral without a sign names. -/
def decimalOf? (s : List Char) : Option Decimal :=
  let whole := s.takeWhile Char.isDigit
  let (fraction, power) := fractionOf (s.dropWhile Char.isDigit)
  if whole = [] then none
  else (exponentOf? power).map fun n =>
    let d := Decimal.ofDigits whole fraction
    ⟨d.coefficient, d.exponent + n⟩

/-- The number that a numeral names. -/
def numberOf? (s : List Char) : Option Binary64 :=
  let negative := s.head? = some '-'
  (decimalOf? (if negative then s.drop 1 else s)).map fun d => .ofSign negative d.toBinary64.code

theorem natOf?_toDigits (n : Nat) : natOf? (Nat.toDigits 10 n) = some n := by
  have hdigits : ∀ c ∈ Nat.toDigits 10 n, c.isDigit = true := fun _ hc =>
    Nat.isDigit_of_mem_toDigits (by decide) (by decide) hc
  rw [natOf?, if_pos ⟨Nat.toDigits_ne_nil, List.all_eq_true.2 hdigits⟩,
    Nat.ofDigitChars_toDigits (by decide) (by decide)]

/-- No digit stands at the beginning of a text. -/
def EndsDigits (s : List Char) : Prop :=
  ∀ c ∈ s.head?, c.isDigit = false

theorem span_digits {digits s : List Char} (hdigits : ∀ c ∈ digits, c.isDigit = true)
    (hs : EndsDigits s) :
    (digits ++ s).takeWhile Char.isDigit = digits ∧ (digits ++ s).dropWhile Char.isDigit = s := by
  rw [List.takeWhile_append_of_pos hdigits, List.dropWhile_append_of_pos hdigits]
  cases s with
  | nil => simp
  | cons c s =>
    have hc : c.isDigit = false := hs c rfl
    simp [hc]

/-- The text of digits behind a point; without digits there is no point. -/
def pointed (fraction : List Char) : List Char :=
  if fraction.isEmpty then [] else '.' :: fraction

theorem pointed_of_ne_nil {fraction : List Char} (h : fraction ≠ []) :
    pointed fraction = '.' :: fraction :=
  if_neg (by simpa using h)

theorem fractionOf_pointed {fraction power : List Char}
    (hfraction : ∀ c ∈ fraction, c.isDigit = true) (hpower : EndsDigits power)
    (hpoint : power.head? ≠ some '.') :
    fractionOf (pointed fraction ++ power) = (fraction, power) := by
  cases fraction with
  | nil =>
    show fractionOf power = ([], power)
    unfold fractionOf
    split
    · exact absurd rfl hpoint
    · rfl
  | cons c fraction =>
    obtain ⟨htake, hdrop⟩ := span_digits hfraction hpower
    rw [pointed_of_ne_nil (List.cons_ne_nil c fraction), List.cons_append, fractionOf, htake, hdrop]

theorem endsDigits_pointed (fraction : List Char) {power : List Char} (hpower : EndsDigits power) :
    EndsDigits (pointed fraction ++ power) := by
  cases fraction with
  | nil => exact hpower
  | cons c fraction => simp [EndsDigits, pointed]

/-- The text of an exponent does not continue digits, and it begins with no point. -/
theorem endsDigits_of_exponentOf? {power : List Char} {n : Int} (h : exponentOf? power = some n) :
    EndsDigits power ∧ power.head? ≠ some '.' := by
  unfold exponentOf? at h
  split at h
  · simp [EndsDigits]
  · simp [EndsDigits]
  · simp [EndsDigits]
  · contradiction

/-- A numeral is read from its parts. -/
theorem decimalOf?_parts {whole fraction power : List Char} {n : Int} (hne : whole ≠ [])
    (hwhole : ∀ c ∈ whole, c.isDigit = true) (hfraction : ∀ c ∈ fraction, c.isDigit = true)
    (hpower : exponentOf? power = some n) :
    decimalOf? (whole ++ (pointed fraction ++ power))
      = some ⟨Nat.ofDigitChars 10 (whole ++ fraction) 0, n - fraction.length⟩ := by
  obtain ⟨hends, hpoint⟩ := endsDigits_of_exponentOf? hpower
  obtain ⟨htake, hdrop⟩ := span_digits hwhole (endsDigits_pointed fraction hends)
  have hexp : -(fraction.length : Int) + n = n - fraction.length := by omega
  simp only [decimalOf?, htake, hdrop, fractionOf_pointed hfraction hends hpoint, hne, hpower,
    if_false, Option.map_some, Decimal.ofDigits, hexp]

/-! ## Numerals of decimals -/

/-- A numeral names a decimal if what is read is rounded to the same number. -/
def Names (numeral : List Char) (d : Decimal) : Prop :=
  ∃ e, decimalOf? numeral = some e ∧ e.toBinary64 = d.toBinary64

/-- The digits of a numeral may be those of the coefficient with zeros behind them. -/
theorem names_parts {whole fraction power : List Char} {n : Int} (d : Decimal) (zeros : Nat)
    (hne : whole ≠ []) (hwhole : ∀ c ∈ whole, c.isDigit = true)
    (hfraction : ∀ c ∈ fraction, c.isDigit = true) (hpower : exponentOf? power = some n)
    (hvalue : Nat.ofDigitChars 10 (whole ++ fraction) 0 = d.coefficient * 10 ^ zeros)
    (hexp : n - fraction.length = d.exponent - zeros) :
    Names (whole ++ (pointed fraction ++ power)) d :=
  ⟨_, by rw [decimalOf?_parts hne hwhole hfraction hpower, hvalue, hexp],
    d.toBinary64_appendZeros zeros⟩

variable (d : Decimal)

theorem exponentOf?_nil : exponentOf? [] = some 0 := rfl

theorem exponentOf?_signed (n : Int) :
    exponentOf? ('e' :: (if n < 0 then ['-'] else ['+']) ++ Nat.toDigits 10 n.natAbs) = some n := by
  split
  all_goals
    simp only [List.cons_append, List.nil_append, exponentOf?, natOf?_toDigits, Option.map_some,
      Option.some.injEq]
    omega

theorem isDigit_zeros (n : Nat) : ∀ c ∈ List.replicate n '0', c.isDigit = true := fun _ hc =>
  List.eq_of_mem_replicate hc ▸ rfl

theorem leadingExponent_eq : d.leadingExponent = d.exponent + d.digits.length - 1 := rfl

/-- A decimal below one: all its digits stand behind the point, and behind zeros. -/
theorem names_positional_of_neg (h : d.leadingExponent < 0) :
    Names (NumeralStyle.positional d.digits d.leadingExponent) d := by
  have hleading := leadingExponent_eq d
  let zeros := List.replicate (-d.leadingExponent - 1).toNat '0'
  have hfraction : ∀ c ∈ zeros ++ d.digits, c.isDigit = true :=
    List.forall_mem_append.2 ⟨isDigit_zeros _, fun _ => Decimal.isDigit_of_mem_digits⟩
  have hvalue : Nat.ofDigitChars 10 (['0'] ++ (zeros ++ d.digits)) 0
      = d.coefficient * 10 ^ 0 := by
    rw [List.singleton_append, Nat.ofDigitChars_cons, Nat.ofDigitChars_append,
      Nat.ofDigitChars_replicate_zero]
    simpa using d.ofDigitChars_digits
  have hexp : (0 : Int) - (zeros ++ d.digits).length = d.exponent - (0 : Nat) := by
    rw [List.length_append, List.length_replicate]
    omega
  have hne : zeros ++ d.digits ≠ [] := List.append_ne_nil_of_right_ne_nil _ d.digits_ne_nil
  have hnames := names_parts d 0 (List.cons_ne_nil '0' []) (isDigit_zeros 1) hfraction
    exponentOf?_nil hvalue hexp
  rw [pointed_of_ne_nil hne, List.append_nil] at hnames
  rw [NumeralStyle.positional, if_pos h]
  exact hnames

/-- A decimal from one on whose digits do not reach the point: zeros fill the gap, and one more
stands behind the point. -/
theorem names_positional_of_length_le (h : 0 ≤ d.leadingExponent)
    (hlen : d.digits.length ≤ d.leadingExponent.toNat + 1) :
    Names (NumeralStyle.positional d.digits d.leadingExponent) d := by
  have hleading := leadingExponent_eq d
  let zeros := List.replicate d.exponent.toNat '0'
  have hne : d.digits ++ zeros ≠ [] := List.append_ne_nil_of_left_ne_nil d.digits_ne_nil _
  have hwhole : ∀ c ∈ d.digits ++ zeros, c.isDigit = true :=
    List.forall_mem_append.2 ⟨fun _ => Decimal.isDigit_of_mem_digits, isDigit_zeros _⟩
  have hvalue : Nat.ofDigitChars 10 (d.digits ++ zeros ++ List.replicate 1 '0') 0
      = d.coefficient * 10 ^ (d.exponent.toNat + 1) := by
    rw [List.append_assoc, List.replicate_append_replicate, Nat.ofDigitChars_append,
      Nat.ofDigitChars_replicate_zero, d.ofDigitChars_digits, Nat.mul_comm]
  have hexp : (0 : Int) - (List.replicate 1 '0').length
      = d.exponent - (d.exponent.toNat + 1 : Nat) := by
    rw [List.length_replicate]
    omega
  have hnames := names_parts d (d.exponent.toNat + 1) hne hwhole (isDigit_zeros 1)
    exponentOf?_nil hvalue hexp
  have hmissing : d.leadingExponent.toNat + 1 - d.digits.length = d.exponent.toNat := by omega
  simpa [NumeralStyle.positional, Int.not_lt.2 h, hmissing, List.take_of_length_le hlen,
    List.drop_eq_nil_of_le hlen, pointed] using hnames

theorem isDigit_of_mem_take {n : Nat} {c : Char} (h : c ∈ d.digits.take n) : c.isDigit = true :=
  Decimal.isDigit_of_mem_digits (List.mem_of_mem_take h)

theorem isDigit_of_mem_drop {n : Nat} {c : Char} (h : c ∈ d.digits.drop n) : c.isDigit = true :=
  Decimal.isDigit_of_mem_digits (List.mem_of_mem_drop h)

/-- A numeral of just the digits of a decimal, with some of them behind the point. -/
theorem names_take_drop {n : Nat} (hn : 0 < n) {power : List Char}
    (hpower : exponentOf? power = some (d.exponent + (d.digits.length - n : Nat))) :
    Names (d.digits.take n ++ (pointed (d.digits.drop n) ++ power)) d := by
  have hne : d.digits.take n ≠ [] := by
    simp [d.digits_ne_nil, Nat.ne_of_gt hn]
  refine names_parts d 0 hne (fun _ => isDigit_of_mem_take d) (fun _ => isDigit_of_mem_drop d)
    hpower ?_ ?_
  · rw [List.take_append_drop, d.ofDigitChars_digits, Nat.pow_zero, Nat.mul_one]
  · rw [List.length_drop]
    omega

/-- A decimal from one on whose digits go on behind the point. -/
theorem names_positional_of_lt_length (h : 0 ≤ d.leadingExponent)
    (hlen : d.leadingExponent.toNat + 1 < d.digits.length) :
    Names (NumeralStyle.positional d.digits d.leadingExponent) d := by
  have hleading := leadingExponent_eq d
  have hexp : d.exponent + (d.digits.length - (d.leadingExponent.toNat + 1) : Nat) = 0 := by omega
  have hnames := names_take_drop d (Nat.succ_pos _) (hexp ▸ exponentOf?_nil)
  have hdrop : d.digits.drop (d.leadingExponent.toNat + 1) ≠ [] := by
    rw [Ne, List.drop_eq_nil_iff]
    omega
  rw [pointed_of_ne_nil hdrop] at hnames
  simpa [NumeralStyle.positional, Int.not_lt.2 h, Nat.sub_eq_zero_of_le (Nat.le_of_lt hlen), hdrop]
    using hnames

theorem names_scientific {style : NumeralStyle} (hplus : style.plusSign = ['+']) :
    Names (style.scientific d.digits d.leadingExponent) d := by
  have hleading := leadingExponent_eq d
  have hlen := List.length_pos_of_ne_nil d.digits_ne_nil
  have hexp : d.exponent + (d.digits.length - 1 : Nat) = d.leadingExponent := by omega
  have hpower := exponentOf?_signed d.leadingExponent
  rw [← hexp] at hpower
  have hnames := names_take_drop d Nat.one_pos hpower
  rw [hexp] at hnames
  unfold NumeralStyle.scientific
  rw [hplus, List.append_assoc, List.append_assoc]
  exact hnames

/-- The digits around a point name the decimal: the point stands before the digits, among them or
behind them. -/
theorem names_positional : Names (NumeralStyle.positional d.digits d.leadingExponent) d := by
  rcases Int.lt_or_le d.leadingExponent 0 with h | h
  · exact names_positional_of_neg d h
  · rcases Nat.lt_or_ge (d.leadingExponent.toNat + 1) d.digits.length with hlen | hlen
    · exact names_positional_of_lt_length d h hlen
    · exact names_positional_of_length_le d h hlen

/-- Every decimal is named by its numeral, in each style that puts a plus sign before an exponent
that is not negative. -/
theorem names_decimal (style : NumeralStyle) (hplus : style.plusSign = ['+']) :
    Names (style.decimal d) d := by
  unfold NumeralStyle.decimal
  split
  · exact names_positional d
  · exact names_scientific d hplus

/-! ## Numerals of numbers -/

theorem isWordPart_of_isDigit {c : Char} (h : c.isDigit = true) : isWordPart c = true := by
  have hblank : isBlank c = false := by
    rw [isBlank, decide_eq_false_iff_not]
    intro hc
    simp only [List.mem_cons, List.not_mem_nil, or_false] at hc
    rcases hc with rfl | rfl | rfl | rfl <;> contradiction
  have hmark : isMark c = false := by
    rw [isMark, decide_eq_false_iff_not]
    intro hc
    simp only [List.mem_cons, List.not_mem_nil, or_false] at hc
    rcases hc with rfl | rfl | rfl | rfl | rfl | rfl <;> contradiction
  have hquote : c ≠ '"' := by
    rintro rfl
    contradiction
  simp [isWordPart, hblank, hmark, hquote]

theorem isWordPart_of_natOf? {s : List Char} {n : Nat} (h : natOf? s = some n) :
    ∀ c ∈ s, isWordPart c = true := by
  unfold natOf? at h
  split at h
  next hs => exact fun c hc => isWordPart_of_isDigit (List.all_eq_true.1 hs.2 c hc)
  next => contradiction

theorem isWordPart_of_exponentOf? {s : List Char} {n : Int} (h : exponentOf? s = some n) :
    ∀ c ∈ s, isWordPart c = true := by
  unfold exponentOf? at h
  split at h
  next => exact fun _ hc => absurd hc List.not_mem_nil
  next s =>
    obtain ⟨m, hm, -⟩ := Option.map_eq_some_iff.1 h
    exact List.forall_mem_cons.2 ⟨rfl, List.forall_mem_cons.2 ⟨rfl, isWordPart_of_natOf? hm⟩⟩
  next s =>
    obtain ⟨m, hm, -⟩ := Option.map_eq_some_iff.1 h
    exact List.forall_mem_cons.2 ⟨rfl, List.forall_mem_cons.2 ⟨rfl, isWordPart_of_natOf? hm⟩⟩
  next => contradiction

theorem isWordPart_of_dropWhile {s : List Char}
    (h : ∀ c ∈ s.dropWhile Char.isDigit, isWordPart c = true) : ∀ c ∈ s, isWordPart c = true := by
  intro c hc
  rw [← List.takeWhile_append_dropWhile (p := Char.isDigit) (l := s), List.mem_append] at hc
  rcases hc with hc | hc
  · exact isWordPart_of_isDigit (List.mem_takeWhile_imp hc)
  · exact h c hc

theorem isWordPart_of_fractionOf {s : List Char}
    (h : ∀ c ∈ (fractionOf s).2, isWordPart c = true) : ∀ c ∈ s, isWordPart c = true := by
  unfold fractionOf at h
  split at h
  next s => exact List.forall_mem_cons.2 ⟨rfl, isWordPart_of_dropWhile h⟩
  next => exact h

/-- Only a word is read as a decimal, and it begins with a digit. -/
theorem isWordPart_of_decimalOf? {s : List Char} {d : Decimal} (h : decimalOf? s = some d) :
    (∃ c ∈ s.head?, c.isDigit = true) ∧ ∀ c ∈ s, isWordPart c = true := by
  unfold decimalOf? at h
  dsimp only at h
  split at h
  next => contradiction
  next hwhole =>
    obtain ⟨n, hpower, -⟩ := Option.map_eq_some_iff.1 h
    refine ⟨?_, isWordPart_of_dropWhile (isWordPart_of_fractionOf
      (isWordPart_of_exponentOf? hpower))⟩
    cases s with
    | nil => exact absurd rfl hwhole
    | cons c s =>
      refine ⟨c, rfl, ?_⟩
      by_contra hc
      exact hwhole (List.takeWhile_cons_of_neg hc)

theorem numberOf?_minus (s : List Char) :
    numberOf? ('-' :: s) = (decimalOf? s).map fun d => .ofSign true d.toBinary64.code := rfl

theorem numberOf?_of_decimalOf? {s : List Char} {d : Decimal} (h : decimalOf? s = some d) :
    numberOf? s = some (.ofSign false d.toBinary64.code) := by
  obtain ⟨⟨c, hhead, hdigit⟩, -⟩ := isWordPart_of_decimalOf? h
  have hminus : s.head? ≠ some '-' := by
    intro hminus
    obtain rfl := Option.some.inj (hhead.symm.trans hminus)
    contradiction
  simp [numberOf?, hminus, h]

/-- A finite number is read back from its numeral, which is a word. -/
theorem numberOf?_finite {x : Binary64} (hx : x.isFinite = true) :
    let numeral := Binary64.jsonStyle.finite x
    numberOf? numeral = some x ∧ numeral ≠ [] ∧ ∀ c ∈ numeral, isWordPart c = true := by
  obtain ⟨e, hread, hround⟩ :=
    names_decimal (.shortest Binary64.jsonStyle.tie x) Binary64.jsonStyle rfl
  have hcode : e.toBinary64.code = x.code := by
    rw [hround]
    exact of_decide_eq_true (Decimal.readsBack_shortest _ hx)
  have hsign := x.ofSign_isNegative_code
  obtain ⟨⟨c, hhead, -⟩, hparts⟩ := isWordPart_of_decimalOf? hread
  cases hneg : x.isNegative with
  | true =>
    rw [hneg] at hsign
    simp only [NumeralStyle.finite, hneg, if_true, List.singleton_append]
    refine ⟨?_, List.cons_ne_nil _ _, List.forall_mem_cons.2 ⟨rfl, hparts⟩⟩
    rw [numberOf?_minus, hread, Option.map_some, hcode, hsign]
  | false =>
    rw [hneg] at hsign
    simp only [NumeralStyle.finite, hneg, Bool.false_eq_true, if_false, List.nil_append]
    refine ⟨?_, ?_, hparts⟩
    · rw [numberOf?_of_decimalOf? hread, hcode, hsign]
    · intro hnil
      rw [hnil] at hhead
      exact absurd hhead (Option.not_mem_none c)

end Json

end Lox
