import Lox.Proofs.Binary64.Shortest
import Lox.Proofs.Numerals

/-!
# Displayed numbers

A number that is not too small and not too large is displayed with its shortest digits around a
point, and with digits on both sides of it (`exists_positional`). Such a text is a lexeme, and as
the digits read back, so does the text: displayed and scanned again, the number is the same bit for
bit (`display_scans_back`).
-/

set_option autoImplicit false

namespace Lox

/-! ## Digits around a point -/

theorem isDigits_zeros {n : Nat} (h : 0 < n) : IsDigits (List.replicate n '0') :=
  ⟨by simpa using Nat.ne_of_gt h, Json.isDigit_zeros n⟩

/-- Digits stand on both sides of the point, and if there are none left for the right side, a zero
stands there. -/
theorem exists_positional {digits : List Char} (h : IsDigits digits) (leading : Int) :
    ∃ whole fraction, NumeralStyle.positional digits leading = whole ++ '.' :: fraction ∧
      IsDigits whole ∧ IsDigits fraction ∧ (digits.length ≤ leading + 1 → fraction = ['0']) := by
  have hlen := List.length_pos_of_ne_nil h.1
  unfold NumeralStyle.positional
  split
  next hneg =>
    refine ⟨['0'], List.replicate (-leading - 1).toNat '0' ++ digits, rfl,
      isDigits_zeros Nat.one_pos, ⟨?_, ?_⟩, ?_⟩
    · exact List.append_ne_nil_of_right_ne_nil _ h.1
    · exact List.forall_mem_append.2 ⟨Json.isDigit_zeros _, h.2⟩
    · intro hle
      omega
  next hneg =>
    refine ⟨_, _, rfl, ⟨?_, ?_⟩, ?_, ?_⟩
    · refine List.append_ne_nil_of_left_ne_nil ?_ _
      simpa using h.1
    · exact List.forall_mem_append.2 ⟨fun c hc => h.2 c (List.mem_of_mem_take hc),
        Json.isDigit_zeros _⟩
    · split
      next => exact isDigits_zeros Nat.one_pos
      next hmore =>
        exact ⟨by simpa using hmore, fun c hc => h.2 c (List.mem_of_mem_drop hc)⟩
    · intro hle
      rw [if_pos]
      rw [List.isEmpty_iff, List.drop_eq_nil_iff]
      omega

/-- A lexeme that names a decimal has the number that the decimal is rounded to as its value. -/
theorem literalOf_of_names {whole fraction : List Char} (hwhole : IsDigits whole)
    (hfraction : IsDigits fraction) {d : Decimal} (h : Json.Names (whole ++ '.' :: fraction) d) :
    literalOf .number (whole ++ '.' :: fraction) = .number d.toBinary64 := by
  have hparts := Json.decimalOf?_parts hwhole.1 hwhole.2 hfraction.2 Json.exponentOf?_nil
  rw [Json.pointed_of_ne_nil hfraction.1, List.append_nil, Int.zero_sub] at hparts
  obtain ⟨e, hread, hround⟩ := h
  obtain rfl := Option.some.inj (hparts.symm.trans hread)
  rw [literalOf_fractional hwhole, ← hround]
  rfl

/-! ## Numbers around a point -/

namespace Binary64

/-- The numbers that are displayed without a power of ten. -/
def IsPlain (x : Binary64) : Prop :=
  x.value = 0 ∨ ((10 : ℚ) ^ (-4 : ℤ) ≤ x.value ∧ x.value < 10 ^ 16)

variable {x : Binary64}

theorem IsPlain.isFinite (h : x.IsPlain) (hsign : x.isNegative = false) : x.isFinite = true := by
  refine isFinite_of_value_lt hsign ?_
  rcases h with hzero | ⟨-, hlt⟩
  · rw [hzero]
    norm_num
  · exact hlt

theorem IsPlain.leadingExponent (h : x.IsPlain) (hsign : x.isNegative = false) :
    -4 ≤ (Decimal.shortest .up x).leadingExponent ∧
      (Decimal.shortest .up x).leadingExponent < 16 := by
  rcases h with hzero | ⟨hle, hlt⟩
  · obtain rfl := eq_of_value_eq hsign (isNegative_ofCode (by decide))
      (hzero.trans value_ofCode_zero.symm)
    decide +kernel
  · exact Decimal.leadingExponent_shortest hsign hle hlt

theorem IsPlain.toList_display (h : x.IsPlain) (hsign : x.isNegative = false) :
    x.display.toList = NumeralStyle.positional (Decimal.shortest .up x).digits
      (Decimal.shortest .up x).leadingExponent := by
  have hx : x.code < infinityCode := of_decide_eq_true (h.isFinite hsign)
  have hnan : x.isNaN = false := decide_eq_false (by omega)
  have hinfinite : x.isInfinite = false := decide_eq_false (by omega)
  have hleading := h.leadingExponent hsign
  rw [display, hnan, hinfinite]
  simp [NumeralStyle.finite, NumeralStyle.decimal, displayStyle, hsign, hleading]

/-- The text of a number around a point: digits on both sides, just a zero behind the point if the
number is whole, and the number is read back. -/
theorem IsPlain.display_spec (h : x.IsPlain) (hsign : x.isNegative = false) :
    ∃ whole fraction, x.display.toList = whole ++ '.' :: fraction ∧ IsDigits whole ∧
      IsDigits fraction ∧ ((∃ n : ℕ, x.value = n) → fraction = ['0']) ∧
      literalOf .number x.display.toList = .number x := by
  have hx := h.isFinite hsign
  have hdisplay := h.toList_display hsign
  have hnames := Json.names_positional (.shortest .up x)
  have hdigits : IsDigits (Decimal.shortest .up x).digits :=
    ⟨Decimal.digits_ne_nil _, fun _ => Decimal.isDigit_of_mem_digits⟩
  obtain ⟨whole, fraction, htext, hwhole, hfraction, hzero⟩ :=
    exists_positional hdigits (Decimal.shortest .up x).leadingExponent
  rw [htext] at hdisplay hnames
  refine ⟨whole, fraction, hdisplay, hwhole, hfraction, ?_, ?_⟩
  · rintro ⟨n, hn⟩
    have hexp := Decimal.exponent_shortest_nonneg .up hsign hx hn
    refine hzero ?_
    rw [Json.leadingExponent_eq]
    omega
  · rw [hdisplay, literalOf_of_names hwhole hfraction hnames,
      Decimal.toBinary64_shortest .up hsign hx]

end Binary64

/-! ## Displayed and scanned again -/

/-- The text of the value of a number token, if it is zero or at least `0.0001` and below `10 ^ 16`,
is a single lexeme with a point and digits on both sides, `.0` at the end if the value is whole, and
scanning it gives a number token of that value, bit for bit, and nothing else. -/
theorem display_scans_back {source : String} {t : Token} (ht : t ∈ (scan source).tokens)
    {x : Binary64} (hx : t.literal = .number x) (hplain : x.IsPlain) :
    tokenize t.literal.display = .ok
        [⟨.number, t.literal.display, .number x, 1, ⟨0, utf8Length t.literal.display.toList⟩⟩,
          ⟨.eof, "", .absent, 1,
            ⟨utf8Length t.literal.display.toList, utf8Length t.literal.display.toList⟩⟩] ∧
      ∃ whole fraction, t.literal.display.toList = whole ++ '.' :: fraction ∧ IsDigits whole ∧
        IsDigits fraction ∧ ((∃ n : ℕ, x.value = n) → fraction = ['0']) := by
  have hsound := isSound_of_mem_tokens ht
  have hkind := hsound.kind_eq_number hx
  have hsign : x.isNegative = false := by
    obtain ⟨d, hliteral, -⟩ := (hsound.isLexeme hkind (by simp)).exists_decimal
    rw [← hkind, ← hsound.literal, hx] at hliteral
    obtain rfl := Literal.number.inj hliteral
    exact Binary64.isNegative_ofRatio _ _
  obtain ⟨whole, fraction, htext, hwhole, hfraction, hzero, hliteral⟩ := hplain.display_spec hsign
  have hlex : IsLexeme .number x.display.toList := htext ▸ .fractional hwhole hfraction
  have hlines : x.display.toList.count '\n' = 0 :=
    List.count_eq_zero.2 (hlex.notMem_of_isSpace (by simp) (by decide))
  have halone := tokenize_lexeme hlex
  rw [hliteral, hlines, String.ofList_toList] at halone
  rw [hx]
  exact ⟨halone, whole, fraction, htext, hwhole, hfraction, hzero⟩

/-- The least number in reach, written with digits that its text does not have. -/
theorem display_scans_back_at_bound :
    (⟨.number, "0.00010", .number ⟨0x3F1A36E2EB1C432D⟩, 1, ⟨2, 9⟩⟩ : Token)
        ∈ (scan "@ 0.00010").tokens ∧
      Binary64.IsPlain ⟨0x3F1A36E2EB1C432D⟩ ∧
      tokenize "0.0001" = .ok [⟨.number, "0.0001", .number ⟨0x3F1A36E2EB1C432D⟩, 1, ⟨0, 6⟩⟩,
        ⟨.eof, "", .absent, 1, ⟨6, 6⟩⟩] := by
  have hmem : (⟨.number, "0.00010", .number ⟨0x3F1A36E2EB1C432D⟩, 1, ⟨2, 9⟩⟩ : Token)
      ∈ (scan "@ 0.00010").tokens := by decide +kernel
  have hplain : Binary64.IsPlain ⟨0x3F1A36E2EB1C432D⟩ := by
    have hsign : (⟨0x3F1A36E2EB1C432D⟩ : Binary64).isNegative = false := by decide +kernel
    have hexp : (⟨0x3F1A36E2EB1C432D⟩ : Binary64).exponentField = 1009 := by decide +kernel
    have hfraction : (⟨0x3F1A36E2EB1C432D⟩ : Binary64).fractionField = 2875098002113325 := by
      decide +kernel
    rw [Binary64.IsPlain, Binary64.value, hsign, hexp, hfraction]
    norm_num
  have hdisplay : (Literal.number ⟨0x3F1A36E2EB1C432D⟩).display = "0.0001" := by decide +kernel
  have hscan := (display_scans_back hmem rfl hplain).1
  rw [hdisplay] at hscan
  exact ⟨hmem, hplain, hscan⟩

end Lox
