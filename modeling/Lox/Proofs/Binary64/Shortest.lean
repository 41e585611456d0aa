import Lox.Decimal.Shortest
import Lox.Proofs.Binary64.Rounding

/-!
# The size of the shortest decimal

The shortest decimal that reads back as a number stands on the same side of a bound as the number
does, if the bound is a number itself; and one that is not gives way only to the number that it is
rounded to (`IsRounded.eq_of_lt_of_le`). So the first digit of the shortest decimal is found where
that of the number is (`leadingExponent_shortest`). The shortest decimal of a whole number is whole
(`exponent_shortest_nonneg`): the grid of the whole numbers has the number itself, and no finer grid
is asked.
-/

set_option autoImplicit false

namespace Lox

-- Powers of naturals are taken by the arithmetic of naturals, whatever else is imported.
attribute [local instance(2000)] instPowNat

namespace Decimal

/-! ## The first digit -/

theorem ratio_eq (d : Decimal) :
    (d.numerator / d.denominator : ℚ) = d.coefficient * (10 : ℚ) ^ d.exponent := by
  have hten : (10 : ℚ) ≠ 0 := by norm_num
  have hexp : d.exponent = (d.exponent.toNat : ℤ) - ((-d.exponent).toNat : ℤ) := by omega
  rw [numerator, denominator, Nat.cast_mul, Nat.cast_pow, Nat.cast_pow, Nat.cast_ofNat,
    mul_div_assoc]
  conv => rhs; rw [hexp, zpow_sub₀ hten, zpow_natCast, zpow_natCast]

theorem coefficient_lt (d : Decimal) : d.coefficient < 10 ^ d.digits.length :=
  (Nat.length_toDigits_le_iff (by decide) (List.length_pos_of_ne_nil d.digits_ne_nil)).1
    (Nat.le_refl _)

/-- A coefficient has no digits that count for nothing. -/
theorem le_coefficient {d : Decimal} (h : 0 < d.coefficient) {n : Nat} (hn : n < d.digits.length) :
    10 ^ n ≤ d.coefficient := by
  rcases Nat.eq_zero_or_pos n with rfl | hpos
  · exact h
  · by_contra hlt
    have hlen := (Nat.length_toDigits_le_iff (by decide) hpos).2 (Nat.lt_of_not_le hlt)
    exact absurd hn (Nat.not_lt.2 hlen)

/-- The power of ten that the first digit counts is the greatest one in the number. -/
theorem ratio_bounds {d : Decimal} (h : 0 < d.coefficient) :
    (10 : ℚ) ^ d.leadingExponent ≤ d.numerator / d.denominator ∧
      (d.numerator / d.denominator : ℚ) < (10 : ℚ) ^ (d.leadingExponent + 1) := by
  have hten : (10 : ℚ) ≠ 0 := by norm_num
  have hpos : (0 : ℚ) < (10 : ℚ) ^ d.exponent := zpow_pos (by norm_num) _
  have hlen := List.length_pos_of_ne_nil d.digits_ne_nil
  have hleading : d.leadingExponent = (d.digits.length - 1 : ℕ) + d.exponent := by
    unfold leadingExponent
    omega
  have hnext : d.leadingExponent + 1 = d.digits.length + d.exponent := by
    unfold leadingExponent
    omega
  rw [ratio_eq, hnext, hleading, zpow_add₀ hten, zpow_add₀ hten, zpow_natCast, zpow_natCast]
  constructor
  · refine mul_le_mul_of_nonneg_right ?_ hpos.le
    exact_mod_cast le_coefficient h (Nat.sub_lt hlen Nat.one_pos)
  · refine mul_lt_mul_of_pos_right ?_ hpos
    exact_mod_cast d.coefficient_lt

end Decimal

namespace Binary64

/-! ## Bounds -/

variable {q bound : ℚ} {x y : Binary64}

/-- A number below another one is that of a quotient below the other one. -/
theorem IsRounded.lt_of_value_lt (h : IsRounded q x) (hx : x.isFinite = true)
    (hy : y.isFinite = true) (hlt : x.value < y.value) : q < y.value := by
  by_contra hge
  have hge := not_lt.1 hge
  have hnear := h.nearest hx y hy
  rw [abs_of_nonneg (by linarith), abs_of_nonneg (by linarith)] at hnear
  linarith

/-- Between a quotient and its number there is nothing that is rounded to another number. -/
theorem IsRounded.eq_of_lt_of_le (h : IsRounded q x) (hx : x.isFinite = true)
    (hy : IsRounded bound y) (hyfinite : y.isFinite = true) (hlt : q < bound)
    (hle : bound ≤ x.value) : x = y := by
  have hnear := h.nearest hx y hyfinite
  have hnear' := hy.nearest hyfinite x hx
  refine eq_of_value_eq h.notNegative hy.notNegative ?_
  rw [abs_of_nonpos (by linarith : bound - x.value ≤ 0)] at hnear'
  rw [abs_of_nonpos (by linarith : q - x.value ≤ 0)] at hnear
  rcases abs_cases (bound - y.value) with ⟨heq, hside⟩ | ⟨heq, hside⟩ <;>
    rcases abs_cases (q - y.value) with ⟨heq', hside'⟩ | ⟨heq', hside'⟩ <;> linarith

/-- What `0.0001` is rounded to. -/
def tenThousandth : Binary64 :=
  ⟨0x3F1A36E2EB1C432D⟩

theorem isRounded_tenThousandth : IsRounded ((10 : ℚ) ^ (-4 : ℤ)) tenThousandth := by
  have hround : tenThousandth = ofRatio 1 10000 := by decide +kernel
  have hvalue : (10 : ℚ) ^ (-4 : ℤ) = ((1 : ℕ) / (10000 : ℕ) : ℚ) := by norm_num
  rw [hround, hvalue]
  exact isRounded_ofRatio (by decide)

/-- What `10 ^ 16` is rounded to: the same number. -/
def tenToSixteen : Binary64 :=
  ⟨0x4341C37937E08000⟩

theorem value_tenToSixteen : tenToSixteen.value = 10 ^ 16 := by
  have hsign : tenToSixteen.isNegative = false := by decide +kernel
  have hexp : tenToSixteen.exponentField = 1076 := by decide +kernel
  have hfraction : tenToSixteen.fractionField = 496400372629504 := by decide +kernel
  rw [value, hsign, hexp, hfraction]
  norm_num

theorem isFinite_of_value_lt (hsign : x.isNegative = false) (hlt : x.value < 10 ^ 16) :
    x.isFinite = true := by
  rw [← value_tenToSixteen, value_lt_value_iff hsign (by decide +kernel)] at hlt
  have hcode : tenToSixteen.code < infinityCode := by decide +kernel
  exact decide_eq_true (hlt.trans hcode)

end Binary64

namespace Decimal

/-! ## The shortest decimal -/

section

variable (tie : Tie) {x : Binary64}

/-- A number that is not negative is what its shortest decimal is rounded to. -/
theorem toBinary64_shortest (hsign : x.isNegative = false) (hx : x.isFinite = true) :
    (shortest tie x).toBinary64 = x :=
  Binary64.eq_of_code_eq ((Binary64.isNegative_ofRatio _ _).trans hsign.symm)
    (of_decide_eq_true (readsBack_shortest tie hx))

theorem isRounded_shortest (hsign : x.isNegative = false) (hx : x.isFinite = true) :
    Binary64.IsRounded
      ((shortest tie x).numerator / (shortest tie x).denominator) x :=
  (Binary64.isRounded_iff (shortest tie x).denominator_pos).2
    (toBinary64_shortest tie hsign hx).symm

/-- Only zero has the coefficient zero. -/
theorem coefficient_shortest_pos (hsign : x.isNegative = false) (hx : x.isFinite = true)
    (hpos : 0 < x.value) : 0 < (shortest tie x).coefficient := by
  refine Nat.pos_of_ne_zero fun hzero => ?_
  have hnear := (isRounded_shortest tie hsign hx).nearest hx (.ofCode 0) (by decide)
  rw [ratio_eq, hzero, Nat.cast_zero, zero_mul, Binary64.value_ofCode_zero, zero_sub, abs_neg,
    sub_zero, abs_zero, abs_of_pos hpos] at hnear
  exact absurd hnear (not_le.2 hpos)

/-- The first digit of the shortest decimal is found where that of the number is. -/
theorem leadingExponent_shortest (hsign : x.isNegative = false)
    (hle : (10 : ℚ) ^ (-4 : ℤ) ≤ x.value) (hlt : x.value < 10 ^ 16) :
    -4 ≤ (shortest .up x).leadingExponent ∧ (shortest .up x).leadingExponent < 16 := by
  have hone : (1 : ℚ) < 10 := by norm_num
  have hpos : 0 < x.value := lt_of_lt_of_le (zpow_pos (by norm_num) _) hle
  have hx := Binary64.isFinite_of_value_lt hsign hlt
  have hround := isRounded_shortest .up hsign hx
  obtain ⟨hlow, hhigh⟩ := ratio_bounds (coefficient_shortest_pos .up hsign hx hpos)
  constructor
  · by_contra hless
    have hbelow : ((shortest .up x).numerator / (shortest .up x).denominator : ℚ)
        < (10 : ℚ) ^ (-4 : ℤ) :=
      lt_of_lt_of_le hhigh (zpow_le_zpow_right₀ hone.le (by omega))
    -- a decimal below the bound can only be that of the number the bound is rounded to
    obtain rfl := hround.eq_of_lt_of_le hx Binary64.isRounded_tenThousandth (by decide +kernel)
      hbelow hle
    exact hless (by decide +kernel)
  · have hbelow := hround.lt_of_value_lt (y := Binary64.tenToSixteen) hx (by decide +kernel)
      (Binary64.value_tenToSixteen ▸ hlt)
    rw [Binary64.value_tenToSixteen, ← zpow_natCast] at hbelow
    exact (zpow_lt_zpow_iff_right₀ hone).1 (lt_of_le_of_lt hlow hbelow)

/-! ## Whole numbers -/

theorem exponent_of_onGrid? {tie : Tie} {places : Nat} {d : Decimal}
    (h : onGrid? tie x places = some d) : d.exponent = (exact x).exponent + places := by
  unfold onGrid? at h
  generalize exact x = e at h
  have hmem := List.mem_of_find?_eq_some h
  split at hmem <;>
  · simp only [List.mem_cons, List.not_mem_nil, or_false] at hmem
    rcases hmem with rfl | rfl <;> rfl

theorem shortest_of_not_isZero (hx : x.isZero = false) :
    shortest tie x = ((List.range ((exact x).digits.length + 1)).reverse.findSome?
      (onGrid? tie x)).getD (exact x) := by
  rw [shortest, hx]
  rfl

/-- If some grid has a point that reads back, the shortest decimal is one of that grid or of a
coarser one. -/
theorem exponent_shortest_of_onGrid? {tie : Tie} (hx : x.isZero = false) {places : Nat}
    (hplaces : places ≤ (exact x).digits.length) (hgrid : onGrid? tie x places ≠ none) :
    (exact x).exponent + places ≤ (shortest tie x).exponent := by
  rw [shortest_of_not_isZero tie hx]
  generalize (exact x).digits.length = finest at hplaces
  have hmem : places ∈ (List.range (finest + 1)).reverse := by
    rw [List.mem_reverse, List.mem_range]
    omega
  have hsorted : (List.range (finest + 1)).reverse.Pairwise (· > ·) :=
    List.pairwise_reverse.2 List.pairwise_lt_range
  generalize (List.range (finest + 1)).reverse = grids at hmem hsorted
  cases h : grids.findSome? (onGrid? tie x) with
  | none => exact absurd (List.findSome?_eq_none_iff.1 h places hmem) hgrid
  | some d =>
    obtain ⟨coarser, found, finer, rfl, hfound, hnone⟩ := List.findSome?_eq_some_iff.1 h
    have hle : places ≤ found := by
      rcases List.mem_append.1 hmem with hcoarser | hrest
      · exact absurd (hnone places hcoarser) hgrid
      · rcases List.mem_cons.1 hrest with rfl | hfiner
        · exact Nat.le_refl _
        · have hpair := (List.pairwise_append.1 hsorted).2.1
          exact Nat.le_of_lt ((List.pairwise_cons.1 hpair).1 places hfiner)
    rw [Option.getD_some, exponent_of_onGrid? hfound]
    exact Int.add_le_add_left (Int.ofNat_le.2 hle) _

/-- A whole number is found on the grid of the whole numbers. -/
theorem onGrid?_whole (hx : x.isFinite = true) {n places : Nat}
    (hexp : (exact x).exponent = -places) (hcoefficient : (exact x).coefficient = n * 10 ^ places) :
    onGrid? tie x places ≠ none := by
  have hexact := readsBack_exact hx
  unfold onGrid?
  dsimp only
  generalize exact x = e at hexp hcoefficient hexact
  have hpow : 0 < 10 ^ places := Nat.pow_pos (by decide)
  have hwhole : readsBack x ⟨n, e.exponent + places⟩ = true := by
    have hsame : (⟨n, e.exponent + places⟩ : Decimal).toBinary64 = e.toBinary64 :=
      toBinary64_congr (by simp [numerator, denominator, hexp, hcoefficient])
    rw [readsBack, hsame]
    exact hexact
  rw [hcoefficient, Nat.mul_div_cancel n hpow, roundDiv_mul tie n hpow, if_pos rfl,
    List.find?_cons_of_pos hwhole]
  exact Option.some_ne_none _

/-- All digits of a whole number, with zeros for the places behind the point. -/
theorem coefficient_exact_of_value_eq (hsign : x.isNegative = false) {n places : Nat}
    (h : x.value = n) (hexp : (exact x).exponent = -places) :
    (exact x).coefficient = n * 10 ^ places := by
  have hunits : x.units = n * 2 ^ Binary64.unitExponent := by
    rw [Binary64.value_of_not_isNegative hsign, div_eq_iff (by positivity)] at h
    rw [Binary64.units_eq_codeUnits]
    exact_mod_cast h
  have hexact := numerator_exact x
  rw [hunits, Nat.mul_right_comm] at hexact
  have hcancel := Nat.eq_of_mul_eq_mul_right (Nat.two_pow_pos _) hexact
  simpa [numerator, denominator, hexp] using hcancel

/-- The shortest decimal of a whole number is whole. -/
theorem exponent_shortest_nonneg (hsign : x.isNegative = false) (hx : x.isFinite = true) {n : Nat}
    (h : x.value = n) : 0 ≤ (shortest tie x).exponent := by
  cases hzero : x.isZero with
  | true =>
    rw [shortest, if_pos hzero]
  | false =>
    obtain ⟨places, hexp⟩ : ∃ places : Nat, (exact x).exponent = -places := ⟨_, rfl⟩
    have hcoefficient := coefficient_exact_of_value_eq hsign h hexp
    have hpos : 0 < n := by
      refine Nat.pos_of_ne_zero fun hn => ?_
      rw [hn, Nat.cast_zero, ← Binary64.value_ofCode_zero] at h
      have hzero' := Binary64.eq_of_value_eq hsign (Binary64.isNegative_ofCode (by decide)) h
      exact Bool.false_ne_true (hzero.symm.trans (hzero' ▸ by decide))
    have hplaces : places ≤ (exact x).digits.length := by
      by_contra hless
      have hlt := (exact x).coefficient_lt
      rw [hcoefficient] at hlt
      have hpow : 10 ^ (exact x).digits.length ≤ 10 ^ places :=
        Nat.pow_le_pow_right (by decide) (by omega)
      have hle : 10 ^ places ≤ n * 10 ^ places := Nat.le_mul_of_pos_left _ hpos
      exact absurd (hlt.trans_le hpow) (Nat.not_lt.2 hle)
    have hgrid := exponent_shortest_of_onGrid? hzero hplaces
      (onGrid?_whole tie hx hexp hcoefficient)
    rw [hexp] at hgrid
    omega

end

end Decimal

end Lox
