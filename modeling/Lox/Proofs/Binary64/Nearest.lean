import Lox.Binary64
import Mathlib.Order.Monotone.Basic

/-!
# The nearest code

Magnitudes grow with their codes, by as much as the exponent says (`codeUnits_succ`). The code that
is found for a quotient is the nearest of all, with a tie going to an even code
(`isNearestCode_unboundedCode`); the exponent has no upper bound here, infinity is cut off later.
There is one such code only (`IsNearestCode.eq_of_even`), and it goes beyond an odd code exactly
from the middle between that code and the next one on (`IsNearestCode.lt_iff`).

All distances are whole numbers: those to `a / b` units are counted in `b`-th parts of a unit.
-/

set_option autoImplicit false

namespace Lox

-- Powers of naturals are taken by the arithmetic of naturals, whatever else is imported.
attribute [local instance(2000)] instPowNat

/-! ## Rounded quotients -/

section

variable {a b : Nat}

/-- A rounded quotient is a nearest whole number. -/
theorem natAbs_sub_roundDiv_le (tie : Tie) (hb : 0 < b) (n : Nat) :
    ((a : Int) - (roundDiv tie a b * b : Nat)).natAbs ≤ ((a : Int) - (n * b : Nat)).natAbs := by
  have hsplit : a / b * b + a % b = a := Nat.div_add_mod' a b
  have hsucc : (a / b + 1) * b = a / b * b + b := Nat.succ_mul _ _
  have hrem : a % b < b := Nat.mod_lt a hb
  -- no whole number lies between the two neighbours
  have hbeside : n * b ≤ a / b * b ∨ (a / b + 1) * b ≤ n * b := by
    rcases Nat.lt_or_ge (a / b) n with h | h
    · exact .inr (Nat.mul_le_mul_right b h)
    · exact .inl (Nat.mul_le_mul_right b h)
  unfold roundDiv
  split <;> omega

/-- The upper neighbour is taken above the middle, and in the middle if it is the even one. -/
theorem roundDiv_even_cases (a b : Nat) :
    (roundDiv .even a b = a / b ∧ 2 * (a % b) ≤ b ∧ (2 * (a % b) = b → a / b % 2 = 0)) ∨
      (roundDiv .even a b = a / b + 1 ∧ b ≤ 2 * (a % b) ∧ (2 * (a % b) = b → a / b % 2 = 1)) := by
  unfold roundDiv
  split
  next h =>
    rcases h with h | ⟨h, hup⟩
    · exact .inr ⟨rfl, by omega, by omega⟩
    · exact .inr ⟨rfl, by omega, fun _ => of_decide_eq_true hup⟩
  next h =>
    obtain ⟨hless, htie⟩ := not_or.1 h
    refine .inl ⟨rfl, by omega, fun hmiddle => ?_⟩
    have hdown : ¬ a / b % 2 = 1 := fun hup => htie ⟨hmiddle, decide_eq_true hup⟩
    omega

/-- A quotient that is as near to another whole number is rounded to an even one. -/
theorem even_roundDiv_of_tie (hb : 0 < b) {n : Nat} (hne : n ≠ roundDiv .even a b)
    (h : ((a : Int) - (n * b : Nat)).natAbs
      = ((a : Int) - (roundDiv .even a b * b : Nat)).natAbs) : roundDiv .even a b % 2 = 0 := by
  have hsplit : a / b * b + a % b = a := Nat.div_add_mod' a b
  have hsucc : (a / b + 1) * b = a / b * b + b := Nat.succ_mul _ _
  have hrem : a % b < b := Nat.mod_lt a hb
  -- another whole number is the other neighbour, or farther away than both
  have hother : (n + 1) * b ≤ a / b * b ∨ n = a / b ∨ n = a / b + 1 ∨
      (a / b + 1 + 1) * b ≤ n * b := by
    rcases Nat.lt_trichotomy n (a / b) with hlt | heq | hgt
    · exact .inl (Nat.mul_le_mul_right b hlt)
    · exact .inr (.inl heq)
    · rcases Nat.lt_or_eq_of_le hgt with hlt | heq
      · exact .inr (.inr (.inr (Nat.mul_le_mul_right b hlt)))
      · exact .inr (.inr (.inl heq.symm))
  rw [Nat.succ_mul, Nat.succ_mul (a / b + 1)] at hother
  rcases roundDiv_even_cases a b with ⟨hround, hlow, heven⟩ | ⟨hround, hhigh, heven⟩ <;>
  · rw [hround] at hne h ⊢
    rcases hother with hfar | rfl | rfl | hfar <;> omega

end

namespace Binary64

/-! ## Codes in order -/

/-- The units of the number with a given code, where the exponent has no upper bound. -/
def codeUnits (code : Nat) : Nat :=
  (code - (code / hiddenBit - 1) * hiddenBit) * 2 ^ (code / hiddenBit - 1)

theorem units_eq_codeUnits (x : Binary64) : x.units = codeUnits x.code := rfl

/-- From a code to the next one the magnitude grows by one of the significand. -/
theorem codeUnits_succ (c : Nat) : codeUnits (c + 1) = codeUnits c + 2 ^ (c / hiddenBit - 1) := by
  unfold codeUnits
  generalize hs : c / hiddenBit - 1 = s
  have hcases : ((c + 1) / hiddenBit - 1 = s ∧ c + 1 - s * hiddenBit = c - s * hiddenBit + 1) ∨
      ((c + 1) / hiddenBit - 1 = s + 1 ∧ c + 1 - (s + 1) * hiddenBit = hiddenBit ∧
        c - s * hiddenBit + 1 = 2 * hiddenBit) := by
    unfold hiddenBit at *
    omega
  rcases hcases with ⟨hscale, hsig⟩ | ⟨hscale, hsig, hfull⟩
  · rw [hscale, hsig, Nat.succ_mul]
  · -- a full significand is carried into the exponent
    rw [hscale, hsig, ← Nat.succ_mul, Nat.succ_eq_add_one, hfull, Nat.pow_succ]
    ac_rfl

theorem codeUnits_strictMono : StrictMono codeUnits :=
  strictMono_nat_of_lt_succ fun c =>
    codeUnits_succ c ▸ Nat.lt_add_of_pos_right (Nat.two_pow_pos _)

theorem codeUnits_injective {c d : Nat} (h : codeUnits c = codeUnits d) : c = d :=
  codeUnits_strictMono.injective h

/-- A code is made up by its scale and its significand; a significand of one digit too many is
carried. -/
theorem codeUnits_mul_add {scale m : Nat} (hleast : scale = 0 ∨ hiddenBit ≤ m)
    (hm : m ≤ 2 * hiddenBit) : codeUnits (scale * hiddenBit + m) = m * 2 ^ scale := by
  rcases Nat.lt_or_eq_of_le hm with hlt | rfl
  · have hscale : (scale * hiddenBit + m) / hiddenBit - 1 = scale := by
      unfold hiddenBit at *
      omega
    rw [codeUnits, hscale, Nat.add_sub_cancel_left]
  · have hscale : (scale * hiddenBit + 2 * hiddenBit) / hiddenBit - 1 = scale + 1 := by
      unfold hiddenBit
      omega
    have hsig : scale * hiddenBit + 2 * hiddenBit - (scale + 1) * hiddenBit = hiddenBit := by
      unfold hiddenBit
      omega
    rw [codeUnits, hscale, hsig, Nat.pow_succ]
    ac_rfl

/-- From the first code of a scale on, magnitudes are multiples of what that scale counts. -/
theorem exists_codeUnits_eq_mul {scale c : Nat}
    (h : scale = 0 ∨ scale * hiddenBit + hiddenBit ≤ c) : ∃ n, codeUnits c = n * 2 ^ scale := by
  have hle : scale ≤ c / hiddenBit - 1 := by
    unfold hiddenBit at *
    omega
  obtain ⟨more, hmore⟩ := Nat.exists_eq_add_of_le hle
  refine ⟨(c - (c / hiddenBit - 1) * hiddenBit) * 2 ^ more, ?_⟩
  rw [codeUnits, hmore, Nat.pow_add]
  ac_rfl

/-! ## The nearest code -/

/-- How far the number with a given code is from `a / b` units, in `b`-th parts of a unit. -/
def distance (a b code : Nat) : Nat :=
  ((a : Int) - (codeUnits code * b : Nat)).natAbs

/-- No code is nearer to `a / b` units, and if another one is as near, this one is even. -/
structure IsNearestCode (a b code : Nat) : Prop where
  nearest : ∀ c, distance a b code ≤ distance a b c
  even : ∀ c, c ≠ code → distance a b c = distance a b code → code % 2 = 0

/-- The code that is found for `a / b` units, without a cut at infinity. -/
def unboundedCode (a b : Nat) : Nat :=
  let scale := (a / b).log2 - 52
  scale * hiddenBit + roundDiv .even a (b * 2 ^ scale)

theorem nearestCode_eq_min (a b : Nat) :
    nearestCode a b = min infinityCode (unboundedCode (a * 2 ^ unitExponent) b) := rfl

section

variable {a b : Nat}

/-- A quotient has no more binary digits than a significand, if it is counted by its scale. -/
theorem lt_of_log2_sub (hb : 0 < b) :
    a < 2 * hiddenBit * (b * 2 ^ ((a / b).log2 - 52)) := by
  have hlog : a / b < 2 ^ ((a / b).log2 + 1) := Nat.lt_log2_self
  have hpow : 2 ^ ((a / b).log2 + 1) ≤ 2 ^ (53 + ((a / b).log2 - 52)) :=
    Nat.pow_le_pow_right (by decide) (by omega)
  calc a < 2 ^ (53 + ((a / b).log2 - 52)) * b :=
        (Nat.div_lt_iff_lt_mul hb).1 (Nat.lt_of_lt_of_le hlog hpow)
    _ = 2 * hiddenBit * (b * 2 ^ ((a / b).log2 - 52)) := by
        have hdouble : 2 ^ (53 : Nat) = 2 * hiddenBit := rfl
        rw [Nat.pow_add, hdouble, Nat.mul_assoc, Nat.mul_comm _ b]

/-- It has as many, unless its scale is the least one. -/
theorem le_of_log2_sub (hb : 0 < b) :
    (a / b).log2 - 52 = 0 ∨ hiddenBit * (b * 2 ^ ((a / b).log2 - 52)) ≤ a := by
  rcases Nat.eq_zero_or_pos ((a / b).log2 - 52) with hzero | hpos
  · exact .inl hzero
  · right
    have hne : a / b ≠ 0 := by
      intro h
      rw [h] at hpos
      exact absurd hpos (by decide)
    have hlog : 2 ^ (a / b).log2 ≤ a / b := Nat.log2_self_le hne
    have hexp : (a / b).log2 = 52 + ((a / b).log2 - 52) := by omega
    rw [hexp, Nat.pow_add] at hlog
    calc hiddenBit * (b * 2 ^ ((a / b).log2 - 52))
        = 2 ^ (52 : Nat) * 2 ^ ((a / b).log2 - 52) * b := by
          rw [hiddenBit]
          ac_rfl
      _ ≤ a := (Nat.le_div_iff_mul_le hb).1 hlog

/-- A code that counts by some scale is as far away as its significand says. -/
theorem distance_of_codeUnits_eq {scale c n : Nat} (h : codeUnits c = n * 2 ^ scale) :
    distance a b c = ((a : Int) - (n * (b * 2 ^ scale) : Nat)).natAbs := by
  have hscaled : n * 2 ^ scale * b = n * (b * 2 ^ scale) := by ac_rfl
  rw [distance, h, hscaled]

section

variable {scale : Nat} (hb : 0 < b)
include hb

/-- The rounded significand is one, or one too large. -/
theorem roundDiv_significand (hhigh : a < 2 * hiddenBit * (b * 2 ^ scale))
    (hlow : scale = 0 ∨ hiddenBit * (b * 2 ^ scale) ≤ a) :
    roundDiv .even a (b * 2 ^ scale) ≤ 2 * hiddenBit ∧
      (scale = 0 ∨ hiddenBit ≤ roundDiv .even a (b * 2 ^ scale)) := by
  have hpart : 0 < b * 2 ^ scale := Nat.mul_pos hb (Nat.two_pow_pos _)
  have hlt : a / (b * 2 ^ scale) < 2 * hiddenBit := (Nat.div_lt_iff_lt_mul hpart).2 hhigh
  have hge : scale = 0 ∨ hiddenBit ≤ a / (b * 2 ^ scale) :=
    hlow.imp_right (Nat.le_div_iff_mul_le hpart).2
  have hround := roundDiv_eq_or .even a (b * 2 ^ scale)
  omega

/-- The codes below all that count by the scale are farther away than the rounded significand: the
first code of the scale stands between them. -/
theorem distance_lt_of_lt (hlow : hiddenBit * (b * 2 ^ scale) ≤ a) {found c : Nat}
    (hfound : codeUnits found = roundDiv .even a (b * 2 ^ scale) * 2 ^ scale)
    (hc : c < scale * hiddenBit + hiddenBit) : distance a b found < distance a b c := by
  have hpart : 0 < b * 2 ^ scale := Nat.mul_pos hb (Nat.two_pow_pos _)
  have hfirst : codeUnits (scale * hiddenBit + hiddenBit) = hiddenBit * 2 ^ scale :=
    codeUnits_mul_add (.inr (Nat.le_refl _)) (by unfold hiddenBit; omega)
  have hbelow : codeUnits c * b < hiddenBit * (b * 2 ^ scale) := by
    calc codeUnits c * b
        < codeUnits (scale * hiddenBit + hiddenBit) * b :=
          Nat.mul_lt_mul_of_pos_right (codeUnits_strictMono hc) hb
      _ = hiddenBit * (b * 2 ^ scale) := by
          rw [hfirst]
          ac_rfl
  have hnear := natAbs_sub_roundDiv_le .even hpart (a := a) hiddenBit
  rw [distance_of_codeUnits_eq hfound, distance]
  generalize codeUnits c * b = u at hbelow
  generalize hiddenBit * (b * 2 ^ scale) = v at hbelow hlow hnear
  omega

end

/-- **The code that is found is the nearest one**, with a tie going to the even one. -/
theorem isNearestCode_unboundedCode (hb : 0 < b) : IsNearestCode a b (unboundedCode a b) := by
  have hhigh := lt_of_log2_sub (a := a) hb
  have hlow := le_of_log2_sub (a := a) hb
  unfold unboundedCode
  dsimp only
  generalize (a / b).log2 - 52 = scale at hhigh hlow
  have hpart : 0 < b * 2 ^ scale := Nat.mul_pos hb (Nat.two_pow_pos _)
  obtain ⟨hcarry, hleast⟩ := roundDiv_significand hb hhigh hlow
  have hfound := codeUnits_mul_add hleast hcarry
  -- a code counts by the same scale, or it is below all those that do
  have hcases : ∀ c, (∃ n, codeUnits c = n * 2 ^ scale) ∨
      distance a b (scale * hiddenBit + roundDiv .even a (b * 2 ^ scale)) < distance a b c := by
    intro c
    by_cases hc : scale = 0 ∨ scale * hiddenBit + hiddenBit ≤ c
    · exact .inl (exists_codeUnits_eq_mul hc)
    · obtain ⟨hzero, hlt⟩ := not_or.1 hc
      exact .inr (distance_lt_of_lt hb (hlow.resolve_left hzero) hfound (Nat.lt_of_not_le hlt))
  constructor
  · intro c
    rcases hcases c with ⟨n, hn⟩ | hlt
    · rw [distance_of_codeUnits_eq hfound, distance_of_codeUnits_eq hn]
      exact natAbs_sub_roundDiv_le .even hpart n
    · exact Nat.le_of_lt hlt
  · intro c hne htie
    rcases hcases c with ⟨n, hn⟩ | hlt
    · have hother : n ≠ roundDiv .even a (b * 2 ^ scale) := by
        rintro rfl
        exact hne (codeUnits_injective (hn.trans hfound.symm))
      rw [distance_of_codeUnits_eq hfound, distance_of_codeUnits_eq hn] at htie
      have heven := even_roundDiv_of_tie hpart hother htie
      unfold hiddenBit
      omega
    · exact absurd htie (Nat.ne_of_gt hlt)

/-! ## One nearest code -/

namespace IsNearestCode

variable {c : Nat}

/-- An even code that is as near as the nearest one is the nearest one: otherwise a code between
the two would be nearer. -/
theorem eq_of_even (h : IsNearestCode a b c) (hb : 0 < b) {d : Nat} (heven : d % 2 = 0)
    (htie : distance a b d = distance a b c) : d = c := by
  by_contra hne
  have hparity := h.even d hne htie
  have hmul : ∀ {m n : Nat}, m < n → codeUnits m * b < codeUnits n * b := fun hlt =>
    Nat.mul_lt_mul_of_pos_right (codeUnits_strictMono hlt) hb
  unfold distance at htie
  rcases Nat.lt_or_gt_of_ne hne with hlt | hgt
  · have hnear := h.nearest (d + 1)
    have hleft : codeUnits d * b < codeUnits (d + 1) * b := hmul (Nat.lt_succ_self d)
    have hright : codeUnits (d + 1) * b < codeUnits c * b := hmul (by omega)
    unfold distance at hnear
    omega
  · have hnear := h.nearest (c + 1)
    have hleft : codeUnits c * b < codeUnits (c + 1) * b := hmul (Nat.lt_succ_self c)
    have hright : codeUnits (c + 1) * b < codeUnits d * b := hmul (by omega)
    unfold distance at hnear
    omega

/-- The nearest code goes beyond an odd one from the middle between that and the next one on. -/
theorem lt_iff (h : IsNearestCode a b c) (hb : 0 < b) {k : Nat} (hodd : k % 2 = 1) :
    k < c ↔ (codeUnits k + codeUnits (k + 1)) * b ≤ 2 * a := by
  have hmul : ∀ {m n : Nat}, m ≤ n → codeUnits m * b ≤ codeUnits n * b := fun hle =>
    Nat.mul_le_mul_right b (codeUnits_strictMono.monotone hle)
  have hstep : codeUnits k * b < codeUnits (k + 1) * b :=
    Nat.mul_lt_mul_of_pos_right (codeUnits_strictMono (Nat.lt_succ_self k)) hb
  rw [Nat.add_mul]
  constructor
  · intro hlt
    have habove := hmul (Nat.succ_le_of_lt hlt)
    have hnear := h.nearest k
    unfold distance at hnear
    simp only [Nat.succ_eq_add_one] at habove
    omega
  · intro hmiddle
    by_contra hle
    have hbelow := hmul (Nat.le_of_not_lt hle)
    have hnear := h.nearest (k + 1)
    -- the code is as near as the next one only if it is the odd one itself
    have hsame : codeUnits c * b = codeUnits k * b ∧
        distance a b (k + 1) = distance a b c := by
      unfold distance at hnear ⊢
      generalize codeUnits c * b = u at *
      generalize codeUnits k * b = v at *
      generalize codeUnits (k + 1) * b = w at *
      omega
    have heven := h.even (k + 1) (by omega) hsame.2
    obtain rfl := codeUnits_injective (Nat.eq_of_mul_eq_mul_right hb hsame.1)
    omega

end IsNearestCode

end

end Binary64

end Lox
