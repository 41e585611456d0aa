import Lox.Proofs.Json.Lossless
import Lox.Proofs.Json.Value
import Lox.Proofs.Numerals
import Lox.Proofs.TextListing

/-!
# Values of tokens in JSON

The JSON of a list of tokens means an array of objects (`valueOf?_listing`), and the member
`literal` of each of them is what a reader gets as the value of a token. It keeps the value of a
token if it is `null` just for tokens without a value, and a number that is read back for numbers
(`Token.LiteralKept`). JSON has no numeral for infinity, and scans give this value to every number
that is large enough, so the member keeps the values of numbers below a bound only: from there on it
is `null` (`listing_json_literals`).
-/

set_option autoImplicit false

namespace Lox

open Json

-- Powers of naturals are taken by the arithmetic of naturals, whatever else is imported.
attribute [local instance(2000)] instPowNat

/-! ## What the JSON of tokens means -/

def Literal.jsonValue : Literal → Json.Value
  | absent => .null
  | string s => .text s
  | number x => if x.isFinite then .number (Binary64.jsonStyle.finite x) else .null

def Json.Value.ofNat (n : Nat) : Json.Value :=
  .number (Nat.toDigits 10 n)

def Span.jsonValue (s : Span) : Json.Value :=
  .object [("start", .ofNat s.start), ("end", .ofNat s.stop)]

def Token.jsonValue (t : Token) : Json.Value :=
  .object
    [("kind", .text t.kind.name),
      ("lexeme", .text t.lexeme),
      ("literal", t.literal.jsonValue),
      ("line", .ofNat t.line),
      ("span", t.span.jsonValue)]

namespace Json

theorem means_numeral (n : Nat) : Means [numeral n] (.ofNat n) :=
  means_word (Value.ofWord?_of_isNumeral (isNumeral_toDigits n))

theorem means_literal (l : Literal) : Means [l.jsonLexeme] l.jsonValue := by
  cases l with
  | absent => exact means_word rfl
  | string s => exact means_text s
  | number x =>
    by_cases hx : x.isFinite = true
    · simp only [Literal.jsonLexeme, Literal.jsonValue, if_pos hx]
      exact means_word (Value.ofWord?_of_isNumeral (isNumeral_finite hx))
    · simp only [Literal.jsonLexeme, Literal.jsonValue, if_neg hx]
      exact means_word rfl

theorem means_span (s : Span) : Means s.jsonLexemes s.jsonValue :=
  means_object (.cons ⟨rfl, means_numeral _⟩ (.cons ⟨rfl, means_numeral _⟩ .nil))

theorem means_token (t : Token) : Means t.jsonLexemes t.jsonValue :=
  means_object
    (.cons ⟨rfl, means_text _⟩ (.cons ⟨rfl, means_text _⟩ (.cons ⟨rfl, means_literal _⟩
      (.cons ⟨rfl, means_numeral _⟩ (.cons ⟨rfl, means_span _⟩ .nil)))))

/-- An array of tokens is an array of their objects, in every layout that adds only blanks. -/
theorem valueOf?_array {layout : JsonLayout} (h : layout.AddsBlanks) (tokens : List Token) :
    valueOf? (layout.array 0 (tokens.map (Token.json layout 1)) ++ "\n")
      = some (.array (tokens.map Token.jsonValue)) := by
  have hmeans : Means (enclosed '[' ']' (tokens.map Token.jsonLexemes))
      (.array (tokens.map Token.jsonValue)) := by
    refine means_array ?_
    rw [List.forall₂_map_left_iff, List.forall₂_map_right_iff]
    exact List.forall₂_same.2 fun t _ => means_token t
  have hread := hmeans []
  rw [List.append_nil] at hread
  rw [valueOf?, lexemes_array h, hread]

theorem valueOf?_listing (tokens : List Token) :
    valueOf? (listing .json tokens) = some (.array (tokens.map Token.jsonValue)) :=
  valueOf?_array JsonLayout.addsBlanks_pretty tokens

end Json

/-! ## What is kept of values -/

/-- The member `literal` of an object keeps the value of a token. -/
structure Token.LiteralKept (t : Token) (v : Json.Value) : Prop where
  null_iff : v.member? "literal" = some .null ↔ t.kind ≠ .string ∧ t.kind ≠ .number
  number : t.kind = .number → ∃ numeral x, v.member? "literal" = some (.number numeral) ∧
    numberOf? numeral = some x ∧ t.literal = .number x

theorem Token.member?_jsonValue (t : Token) :
    t.jsonValue.member? "literal" = some t.literal.jsonValue := rfl

namespace Token.IsSound

variable {t : Token}

/-- The value of a number is what its digits mean, rounded. -/
theorem exists_isRounded (h : t.IsSound) (hkind : t.kind = .number) :
    ∃ x, t.literal = .number x ∧ Binary64.IsRounded (numeralValue t.lexeme.toList) x := by
  obtain ⟨d, hliteral, hvalue⟩ := (h.isLexeme hkind (by simp)).exists_decimal
  refine ⟨d.toBinary64, ?_, ?_⟩
  · rw [h.literal, hkind, hliteral]
  · rw [← hvalue]
    exact (Binary64.isRounded_iff d.denominator_pos).2 rfl

/-- Only the values of numbers from a bound on are not finite. -/
theorem hasFiniteValue_iff (h : t.IsSound) :
    t.HasFiniteValue ↔ (t.kind = .number →
      numeralValue t.lexeme.toList < (2 : ℚ) ^ 1024 - (2 : ℚ) ^ 970) := by
  constructor
  · intro hfinite hkind
    obtain ⟨x, hx, hrounded⟩ := h.exists_isRounded hkind
    exact hrounded.isFinite_iff.1 (hfinite x hx)
  · intro hbound x hx
    have hkind := h.kind_eq_number hx
    obtain ⟨y, hy, hrounded⟩ := h.exists_isRounded hkind
    obtain rfl := Literal.number.inj (hx.symm.trans hy)
    exact hrounded.isFinite_iff.2 (hbound hkind)

theorem literal_eq_absent_iff (h : t.IsSound) :
    t.literal = .absent ↔ t.kind ≠ .string ∧ t.kind ≠ .number := by
  constructor
  · intro habsent
    constructor
    · intro hstring
      obtain ⟨body, -, -, hliteral⟩ := h.agreesWithLexeme.quoted hstring
      rw [hliteral] at habsent
      contradiction
    · intro hnumber
      obtain ⟨x, hliteral⟩ := h.agreesWithLexeme.numeral hnumber
      rw [hliteral] at habsent
      contradiction
  · rintro ⟨hstring, hnumber⟩
    exact h.agreesWithLexeme.absent hstring hnumber

theorem literalKept_of_hasFiniteValue (h : t.IsSound) (hfinite : t.HasFiniteValue) :
    t.LiteralKept t.jsonValue := by
  constructor
  · rw [t.member?_jsonValue, Option.some.injEq, ← h.literal_eq_absent_iff]
    cases hl : t.literal with
    | absent => simp [Literal.jsonValue]
    | string s => simp [Literal.jsonValue]
    | number x => simp [Literal.jsonValue, hfinite x hl]
  · intro hkind
    obtain ⟨x, hx⟩ := h.agreesWithLexeme.numeral hkind
    refine ⟨_, x, ?_, (numberOf?_finite (hfinite x hx)).1, hx⟩
    rw [t.member?_jsonValue, hx, Literal.jsonValue, if_pos (hfinite x hx)]

end Token.IsSound

/-- What is no finite number is `null`. -/
theorem Token.member?_of_not_hasFiniteValue {t : Token} (h : ¬ t.HasFiniteValue) :
    t.jsonValue.member? "literal" = some .null := by
  unfold HasFiniteValue at h
  push Not at h
  obtain ⟨x, hx, hinfinite⟩ := h
  rw [t.member?_jsonValue, hx, Literal.jsonValue, if_neg hinfinite]

theorem Token.IsSound.literalKept_iff {t : Token} (h : t.IsSound) :
    t.LiteralKept t.jsonValue ↔ t.HasFiniteValue := by
  refine ⟨fun hkept => ?_, h.literalKept_of_hasFiniteValue⟩
  by_contra hinfinite
  have habsent := hkept.null_iff.1 (t.member?_of_not_hasFiniteValue hinfinite)
  -- only a number has a value that is not finite
  exact hinfinite fun x hx => absurd (h.kind_eq_number hx) habsent.2

/-- **Values of tokens in JSON.** The JSON listing of a source without errors is an array with an
object for each token. Its member `literal` keeps the value of the token unless the token is a
number that is too large for 64 bits: then it is `null`, as if there were no value. -/
theorem listing_json_literals {source : String} (clean : (scan source).errors = []) :
    ∃ text values, listingOf .json source = .ok text ∧ valueOf? text = some (.array values) ∧
      List.Forall₂
        (fun t v =>
          (t.LiteralKept v ↔ (t.kind = .number →
            numeralValue t.lexeme.toList < (2 : ℚ) ^ 1024 - (2 : ℚ) ^ 970)) ∧
          (¬ t.LiteralKept v → v.member? "literal" = some .null))
        (scan source).tokens values := by
  refine ⟨_, _, listingOf_of_errors_eq_nil clean .json, valueOf?_listing _, ?_⟩
  rw [List.forall₂_map_right_iff, List.forall₂_same]
  intro t ht
  have hsound := isSound_of_mem_tokens ht
  rw [hsound.literalKept_iff]
  exact ⟨hsound.hasFiniteValue_iff, t.member?_of_not_hasFiniteValue⟩

theorem isDigits_powerOfTen (n : Nat) : IsDigits ('1' :: List.replicate n '0') :=
  ⟨List.cons_ne_nil _ _, List.forall_mem_cons.2 ⟨rfl, isDigit_zeros n⟩⟩

/-- The greatest power of ten that is kept. -/
theorem listing_json_literals_of_large :
    ∃ text values, listingOf .json (String.ofList ('1' :: List.replicate 308 '0')) = .ok text ∧
      valueOf? text = some (.array values) ∧
      (scan (String.ofList ('1' :: List.replicate 308 '0'))).tokens.map Token.kind
        = [.number, .eof] ∧
      List.Forall₂ Token.LiteralKept
        (scan (String.ofList ('1' :: List.replicate 308 '0'))).tokens values := by
  have hdigits := isDigits_powerOfTen 308
  obtain ⟨clean, htokens⟩ := tokenize_eq_ok_iff.1 (tokenize_lexeme (.whole hdigits))
  have hbound : numeralValue ('1' :: List.replicate 308 '0')
      < (2 : ℚ) ^ 1024 - (2 : ℚ) ^ 970 := by
    have hnat : Nat.ofDigitChars 10 ('1' :: List.replicate 308 '0') 0 + 2 ^ 970 < 2 ^ 1024 := by
      decide +kernel
    rw [numeralValue_whole hdigits, ← cast_ofDigitChars, lt_sub_iff_add_lt]
    exact_mod_cast hnat
  obtain ⟨text, values, hlisting, hvalues, hkept⟩ := listing_json_literals clean
  refine ⟨text, values, hlisting, hvalues, congrArg (List.map Token.kind) htokens.symm, ?_⟩
  rw [← htokens] at hkept ⊢
  obtain _ | ⟨⟨hnumber, -⟩, _ | ⟨⟨heof, -⟩, ⟨⟩⟩⟩ := hkept
  refine .cons (hnumber.2 fun _ => ?_) (.cons (heof.2 ?_) .nil)
  · rw [String.toList_ofList]
    exact hbound
  · intro hkind
    contradiction

/-- The least power of ten that is not kept. -/
theorem member?_literal_of_infinite :
    (scan (String.ofList ('1' :: List.replicate 309 '0'))).errors = [] ∧
      (scan (String.ofList ('1' :: List.replicate 309 '0'))).tokens.map Token.kind
        = [.number, .eof] ∧
      ∃ text v w, listingOf .json (String.ofList ('1' :: List.replicate 309 '0')) = .ok text ∧
        valueOf? text = some (.array [v, w]) ∧ v.member? "literal" = some .null := by
  have hdigits := isDigits_powerOfTen 309
  obtain ⟨clean, htokens⟩ := tokenize_eq_ok_iff.1 (tokenize_lexeme (.whole hdigits))
  have hvalues := valueOf?_listing (scan (String.ofList ('1' :: List.replicate 309 '0'))).tokens
  have hinfinite : ¬ (Decimal.ofDigits ('1' :: List.replicate 309 '0') []).toBinary64.isFinite
      = true := by
    decide +kernel
  rw [← htokens, List.map_cons, List.map_singleton] at hvalues
  refine ⟨clean, congrArg (List.map Token.kind) htokens.symm, _, _, _,
    listingOf_of_errors_eq_nil clean .json, by rw [← htokens]; exact hvalues, ?_⟩
  rw [Token.member?_jsonValue, literalOf_whole hdigits, Literal.jsonValue, if_neg hinfinite]

end Lox
