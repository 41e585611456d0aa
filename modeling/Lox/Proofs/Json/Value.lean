import Lox.Proofs.Json.Lexemes
import Lox.Proofs.NumeralShape

/-!
# Values of JSON texts

What a JSON text means, whatever it is about: its lexemes are put together to a value, an array or
an object of values (`Json.readValue`). Numerals stay as they are written, and only those of JSON's
own grammar are taken (`Json.isNumeral`); the numerals of finite numbers are
(`isNumeral_finite`).

Lexemes *mean* a value if it is what is read from them whatever stands behind them (`Means`). Arrays
and objects of lexemes with a meaning mean the arrays and objects of what these mean
(`means_array`, `means_object`).
-/

set_option autoImplicit false

namespace Lox

namespace Json

/-! ## Numerals -/

/-- Whether a text is a power of ten behind the digits of a numeral, or nothing. -/
def isPower : List Char → Bool
  | [] => true
  | c :: s =>
    (c = 'e' || c = 'E')
      && (natOf? (if s.head? = some '-' ∨ s.head? = some '+' then s.drop 1 else s)).isSome

/-- Whether a text is what may stand behind the first digits of a numeral. -/
def isNumeralEnd : List Char → Bool
  | '.' :: s => s.takeWhile Char.isDigit ≠ [] && isPower (s.dropWhile Char.isDigit)
  | s => isPower s

/-- Whether a text is a numeral without a sign: digits, of which the first is no zero unless it is
the only one, digits behind a point, if any, and a power of ten, if any. -/
def isUnsigned (s : List Char) : Bool :=
  let whole := s.takeWhile Char.isDigit
  whole ≠ [] && (whole.head? ≠ some '0' || whole = ['0'])
    && isNumeralEnd (s.dropWhile Char.isDigit)

/-- Whether a text is a numeral of JSON. -/
def isNumeral (s : List Char) : Bool :=
  isUnsigned (if s.head? = some '-' then s.drop 1 else s)

theorem natOf?_of_isDigits {digits : List Char} (h : IsDigits digits) :
    (natOf? digits).isSome = true := by
  rw [natOf?, if_pos ⟨h.1, List.all_eq_true.2 h.2⟩]
  rfl

/-- A power of ten does not continue digits, and it begins with no point. -/
theorem endsDigits_of_isPower {power : List Char} (h : isPower power = true) :
    EndsDigits power ∧ power.head? ≠ some '.' := by
  cases power with
  | nil => simp [EndsDigits]
  | cons c s =>
    rw [isPower, Bool.and_eq_true, Bool.or_eq_true, decide_eq_true_eq, decide_eq_true_eq] at h
    rcases h.1 with rfl | rfl <;> simp [EndsDigits]

/-- A power of ten is one of JSON, in each style that puts a plus sign before an exponent that is
not negative. -/
theorem isPower_of_style {style : NumeralStyle} (hplus : style.plusSign = ['+'])
    {power : List Char} (h : style.IsPower power) : isPower power = true := by
  cases h with
  | none => rfl
  | signed isSign isDigits =>
    rw [hplus] at isSign
    rcases isSign with rfl | rfl <;> simp [isPower, natOf?_of_isDigits isDigits]

theorem isNumeralEnd_pointed {fraction power : List Char}
    (hfraction : ∀ c ∈ fraction, c.isDigit = true) (hpower : isPower power = true) :
    isNumeralEnd (pointed fraction ++ power) = true := by
  obtain ⟨hends, hpoint⟩ := endsDigits_of_isPower hpower
  cases fraction with
  | nil =>
    show isNumeralEnd power = true
    unfold isNumeralEnd
    split
    · exact absurd rfl hpoint
    · exact hpower
  | cons c fraction =>
    obtain ⟨htake, hdrop⟩ := span_digits hfraction hends
    rw [pointed_of_ne_nil (List.cons_ne_nil c fraction), List.cons_append, isNumeralEnd, htake,
      hdrop, hpower]
    rfl

theorem isUnsigned_parts {whole fraction power : List Char} (hwhole : IsWholePart whole)
    (hfraction : ∀ c ∈ fraction, c.isDigit = true) (hpower : isPower power = true) :
    isUnsigned (whole ++ (pointed fraction ++ power)) = true := by
  have hends := endsDigits_pointed fraction (endsDigits_of_isPower hpower).1
  obtain ⟨htake, hdrop⟩ := span_digits hwhole.isDigits.2 hends
  have hzero : (whole.head? ≠ some '0' || whole = ['0']) = true := by
    by_cases hhead : whole.head? = some '0'
    · simp [hwhole.noZero hhead]
    · simp [hhead]
  rw [isUnsigned, htake, hdrop, isNumeralEnd_pointed hfraction hpower, hzero]
  simp [hwhole.isDigits.1]

theorem isNumeral_minus (s : List Char) : isNumeral ('-' :: s) = isUnsigned s := rfl

/-- What begins with a digit has no sign. -/
theorem isNumeral_append {whole : List Char} (h : IsDigits whole) (s : List Char) :
    isNumeral (whole ++ s) = isUnsigned (whole ++ s) := by
  obtain ⟨c, whole, rfl⟩ := List.exists_cons_of_ne_nil h.1
  have hc := h.2 c (by simp)
  have hminus : (c :: whole ++ s).head? ≠ some '-' := by
    intro hminus
    obtain rfl := Option.some.inj hminus
    contradiction
  rw [isNumeral, if_neg hminus]

/-- The numeral of a finite number is one of JSON. -/
theorem isNumeral_finite {x : Binary64} (hx : x.isFinite = true) :
    isNumeral (Binary64.jsonStyle.finite x) = true := by
  obtain ⟨whole, fraction, power, htext, hwhole, hfraction, hpower⟩ :=
    Binary64.jsonStyle.exists_parts
      (Decimal.leadingExponent_shortest_of_eq_zero Binary64.jsonStyle.tie hx)
  have hunsigned := isUnsigned_parts hwhole hfraction (isPower_of_style rfl hpower)
  rw [NumeralStyle.finite, htext]
  cases x.isNegative with
  | true => exact (isNumeral_minus _).trans hunsigned
  | false => exact (isNumeral_append hwhole.isDigits _).trans hunsigned

theorem isNumeral_toDigits (n : Nat) : isNumeral (Nat.toDigits 10 n) = true := by
  have hunsigned : isUnsigned (Nat.toDigits 10 n ++ (pointed [] ++ [])) = true :=
    isUnsigned_parts (isWholePart_toDigits n) (List.forall_mem_nil _) rfl
  have hnumeral := (isNumeral_append (isDigits_toDigits n) _).trans hunsigned
  simpa [pointed] using hnumeral

/-- Digits are missing, or there is a zero in front of them, or another sign than a minus. -/
example : ["", "-", "01", "1.", ".5", "1e", "+1", "inf"].any (isNumeral ·.toList) = false := by
  decide

/-! ## Values -/

/-- The value of a JSON text. -/
inductive Value where
  | null
  | truth (b : Bool)
  /-- A number, as it is written. -/
  | number (numeral : List Char)
  | text (s : String)
  | array (items : List Value)
  | object (members : List (String × Value))

namespace Value

/-- The value of a word: one of three names, or a numeral. -/
def ofWord? (w : List Char) : Option Value :=
  if w = "null".toList then some .null
  else if w = "true".toList then some (.truth true)
  else if w = "false".toList then some (.truth false)
  else if isNumeral w then some (.number w)
  else none

/-- No name is a numeral. -/
theorem ofWord?_of_isNumeral {w : List Char} (h : isNumeral w = true) :
    ofWord? w = some (.number w) := by
  have hne : ∀ name : List Char, isNumeral name = false → w ≠ name := by
    rintro name hname rfl
    exact Bool.false_ne_true (hname.symm.trans h)
  rw [ofWord?, if_neg (hne _ rfl), if_neg (hne _ rfl), if_neg (hne _ rfl), if_pos h]

/-- The member of an object that has the given name. -/
def member? (name : String) : Value → Option Value
  | .object members => members.lookup name
  | _ => none

end Value

mutual

/-- Reads a value, and gives the lexemes behind it. -/
def readValue : List Lexeme → Option (Value × List Lexeme)
  | .text s :: ls => some (.text s, ls)
  | .word w :: ls => (Value.ofWord? w).map (·, ls)
  | .mark '[' :: ls =>
    if ls.head? = some (.mark ']') then some (.array [], ls.tail)
    else (readItems ls).map fun (items, ls) => (.array items, ls)
  | .mark '\x7b' :: ls =>
    if ls.head? = some (.mark '\x7d') then some (.object [], ls.tail)
    else (readMembers ls).map fun (members, ls) => (.object members, ls)
  | _ => none
termination_by ls => (ls.length, 0)

/-- Reads values with commas between them, and the bracket behind the last one. What is left behind
a comma is compared with the beginning so that reading ends. -/
def readItems (ls : List Lexeme) : Option (List Value × List Lexeme) :=
  match readValue ls with
  | some (v, .mark ']' :: rest) => some ([v], rest)
  | some (v, .mark ',' :: rest) =>
    if rest.length < ls.length then
      (readItems rest).map fun (items, rest) => (v :: items, rest)
    else none
  | _ => none
termination_by (ls.length, 1)

/-- Reads names with values and commas between them, and the brace behind the last value. -/
def readMembers : List Lexeme → Option (List (String × Value) × List Lexeme)
  | .text name :: .mark ':' :: ls =>
    match readValue ls with
    | some (v, .mark '\x7d' :: rest) => some ([(name, v)], rest)
    | some (v, .mark ',' :: rest) =>
      if rest.length < ls.length then
        (readMembers rest).map fun (members, rest) => ((name, v) :: members, rest)
      else none
    | _ => none
  | _ => none
termination_by ls => (ls.length, 1)

end

/-- Lexemes mean a value if it is read from them, whatever stands behind them. -/
def Means (ls : List Lexeme) (v : Value) : Prop :=
  ∀ rest, readValue (ls ++ rest) = some (v, rest)

theorem means_text (s : String) : Means [.text s] (.text s) := by
  intro rest
  simp [readValue]

theorem means_word {w : List Char} {v : Value} (h : Value.ofWord? w = some v) :
    Means [.word w] v := by
  intro rest
  simp [readValue, h]

/-- No item begins with the bracket that ends an empty array. -/
theorem head?_of_readItems {ls rest : List Lexeme} {vs : List Value}
    (h : readItems ls = some (vs, rest)) : ls.head? ≠ some (.mark ']') := by
  intro hhead
  obtain ⟨tail, rfl⟩ := List.head?_eq_some_iff.1 hhead
  simp [readItems, readValue] at h

/-- No member begins with the brace that ends an empty object. -/
theorem head?_of_readMembers {ls rest : List Lexeme} {values : List (String × Value)}
    (h : readMembers ls = some (values, rest)) : ls.head? ≠ some (.mark '\x7d') := by
  intro hhead
  obtain ⟨tail, rfl⟩ := List.head?_eq_some_iff.1 hhead
  simp [readMembers] at h

/-- Items are read with the commas between them and the bracket behind them. -/
theorem readItems_intercalate {ls : List Lexeme} {lss : List (List Lexeme)} {v : Value}
    {vs : List Value} (h : Means ls v) (hs : List.Forall₂ Means lss vs) (rest : List Lexeme) :
    readItems ([Lexeme.mark ','].intercalate (ls :: lss) ++ .mark ']' :: rest)
      = some (v :: vs, rest) := by
  induction hs generalizing ls v with
  | nil =>
    rw [List.intercalate_singleton, readItems, h]
    simp
  | cons hnext _ ih =>
    have hrest := ih hnext
    rw [List.intercalate_cons_cons, List.append_assoc, List.append_assoc, readItems, h,
      List.singleton_append]
    simp only [List.length_append, List.length_cons, hrest]
    rw [if_pos (by omega)]
    rfl

/-- Members are read with the commas between them and the brace behind them. -/
theorem readMembers_intercalate (name : String) {ls : List Lexeme} {v : Value}
    {members : List (String × List Lexeme)} {values : List (String × Value)} (h : Means ls v)
    (hs : List.Forall₂ (fun m w => m.1 = w.1 ∧ Means m.2 w.2) members values)
    (rest : List Lexeme) :
    readMembers ([Lexeme.mark ','].intercalate
        (member name ls :: members.map fun (name, value) => member name value)
          ++ .mark '\x7d' :: rest)
      = some ((name, v) :: values, rest) := by
  induction hs generalizing name ls v with
  | nil =>
    rw [List.map_nil, List.intercalate_singleton, member, List.cons_append, List.cons_append,
      readMembers, h]
    simp
  | @cons next value _ _ hnext _ ih =>
    obtain ⟨hname, hvalue⟩ := hnext
    have hrest := ih next.1 hvalue
    rw [List.map_cons, List.intercalate_cons_cons, List.append_assoc, List.append_assoc, member,
      List.cons_append, List.cons_append, readMembers, h, List.singleton_append]
    simp only [List.length_append, List.length_cons, hrest]
    rw [if_pos (by omega), hname]
    rfl

theorem means_array {lss : List (List Lexeme)} {vs : List Value}
    (h : List.Forall₂ Means lss vs) : Means (enclosed '[' ']' lss) (.array vs) := by
  intro rest
  cases h with
  | nil => simp [enclosed, readValue]
  | cons hv hs =>
    have hitems := readItems_intercalate hv hs rest
    simp only [enclosed, List.cons_append, List.append_assoc, List.nil_append, readValue]
    rw [if_neg (head?_of_readItems hitems), hitems]
    rfl

theorem means_object {members : List (String × List Lexeme)} {values : List (String × Value)}
    (h : List.Forall₂ (fun m w => m.1 = w.1 ∧ Means m.2 w.2) members values) :
    Means (object members) (.object values) := by
  intro rest
  cases h with
  | nil => simp [object, enclosed, readValue]
  | @cons m w _ _ hm hs =>
    obtain ⟨hname, hvalue⟩ := hm
    have hmembers := readMembers_intercalate m.1 hvalue hs rest
    simp only [object, enclosed, List.map_cons, List.cons_append, List.append_assoc,
      List.nil_append, readValue] at hmembers ⊢
    rw [if_neg (head?_of_readMembers hmembers), hmembers, hname]
    rfl

/-- The value of a text, if it is a JSON text. -/
def valueOf? (text : String) : Option Value :=
  match readValue (lexemes text.toList) with
  | some (v, []) => some v
  | _ => none

end Json

end Lox
