import Lox.Proofs.Lines
import Lox.Proofs.Reporters

/-!
# Lexemes on their own

A lexeme with nothing behind it is not extended, so it is the only piece of its text
(`pieces_lexeme`), and scanned alone it is a token again. What its token is then depends on the
lexeme only (`Token.IsSound.eq_of_lexeme_eq`), whatever stood around it in the source that it was
found in (`lexeme_alone`).
-/

set_option autoImplicit false

namespace Lox

/-! ## The scan of one lexeme -/

theorem pieces_lexeme {kind : Kind} {text : List Char} (hlex : IsLexeme kind text) :
    pieces text = [.lexeme kind text] := by
  have hpieces := pieces_lexeme_append hlex (not_extends_nil kind text)
  rw [List.append_nil, pieces_nil] at hpieces
  exact hpieces

theorem scanFrom_lexeme {kind : Kind} {text : List Char} (hlex : IsLexeme kind text) :
    (scanFrom .start text).errors = [] ∧
      (scanFrom .start text).tokens
        = [tokenAt .start kind text, eofAt (Position.start.advance text)] := by
  have hscan := scanOf_pieces .start text
  rw [pieces_lexeme hlex] at hscan
  rw [← hscan, scanOf_cons_errors, scanOf_cons_tokens]
  exact ⟨rfl, rfl⟩

/-- A lexeme alone has no error, and its token and the last one as its tokens. -/
theorem tokenize_lexeme {kind : Kind} {text : List Char} (hlex : IsLexeme kind text) :
    tokenize (String.ofList text) = .ok
      [⟨kind, String.ofList text, literalOf kind text, 1, ⟨0, utf8Length text⟩⟩,
        ⟨.eof, "", .absent, 1 + text.count '\n', ⟨utf8Length text, utf8Length text⟩⟩] := by
  obtain ⟨herrors, htokens⟩ := scanFrom_lexeme hlex
  have htoken : tokenAt .start kind text
      = ⟨kind, String.ofList text, literalOf kind text, 1, ⟨0, utf8Length text⟩⟩ := by
    simp [tokenAt, Position.start]
  rw [tokenize_eq_ok_iff, scan, String.toList_ofList]
  refine ⟨herrors, ?_⟩
  rw [htokens, htoken, eofAt_advance_start]

/-! ## The tokens of a scan -/

/-- A token whose text is a lexeme of its kind, or nothing at the end, and whose value is that of
its text. -/
structure Token.IsSound (t : Token) : Prop where
  lexeme : (t.kind = .eof ∧ t.lexeme = "") ∨ IsLexeme t.kind t.lexeme.toList
  literal : t.literal = literalOf t.kind t.lexeme.toList

theorem isSound_of_mem_tokens {source : String} {t : Token} (h : t ∈ (scan source).tokens) :
    t.IsSound := by
  refine ⟨?_, literal_of_mem_tokens h⟩
  rcases exists_of_mem_tokens h with rfl | ⟨kind, _, text, _, _, hlex, _, rfl⟩
  · exact .inl ⟨rfl, rfl⟩
  · right
    rw [tokenAt, String.toList_ofList]
    exact hlex

namespace Token.IsSound

variable {t u : Token}

theorem isLexeme (h : t.IsSound) {kind : Kind} (hkind : t.kind = kind) (hne : kind ≠ .eof) :
    IsLexeme kind t.lexeme.toList := by
  rcases h.lexeme with ⟨heof, -⟩ | hlex
  · exact absurd (hkind.symm.trans heof) hne
  · rw [← hkind]
    exact hlex

/-- Only a string has white space in its text. -/
theorem notMem_lexeme_of_isSpace (h : t.IsSound) (hstring : t.kind ≠ .string) {c : Char}
    (hc : isSpace c = true) : c ∉ t.lexeme.toList := by
  rcases h.lexeme with ⟨-, hempty⟩ | hlexeme
  · simp [hempty]
  · exact hlexeme.notMem_of_isSpace hstring hc

/-- Kind and value of a token are told by its text. -/
theorem eq_of_lexeme_eq (ht : t.IsSound) (hu : u.IsSound) (h : u.lexeme = t.lexeme) :
    u.kind = t.kind ∧ u.literal = t.literal := by
  have hkind : u.kind = t.kind := by
    rcases ht.lexeme with ⟨hkind, hempty⟩ | htlex
    all_goals rcases hu.lexeme with ⟨hkind', hempty'⟩ | hulex
    · rw [hkind, hkind']
    · exact absurd (by rw [h, hempty]; rfl) hulex.text_ne_nil
    · exact absurd (by rw [← h, hempty']; rfl) htlex.text_ne_nil
    · rw [h] at hulex
      exact hulex.kind_unique htlex
  refine ⟨hkind, ?_⟩
  calc
    u.literal = literalOf u.kind u.lexeme.toList := hu.literal
    _ = literalOf t.kind t.lexeme.toList := by rw [hkind, h]
    _ = t.literal := ht.literal.symm

end Token.IsSound

/-! ## Lexemes and values by kind -/

namespace IsLexeme

variable {kind : Kind} {text : List Char}

theorem eq_spelling (h : IsLexeme kind text) {spelling : String}
    (hspelling : kind.spelling? = some spelling) : text = spelling.toList := by
  cases h with
  | mark p | keyword k =>
    obtain rfl := Option.some.inj hspelling
    rfl
  | _ => exact absurd hspelling (by simp [Kind.spelling?])

theorem ne_spelling (h : IsLexeme .identifier text) (k : Keyword) : k.spelling.toList ≠ text := by
  cases h with
  | identifier _ free => exact free k

theorem exists_body (h : IsLexeme .string text) :
    ∃ body, text = '"' :: body ++ ['"'] ∧ '"' ∉ body := by
  cases h with
  | string unquoted => exact ⟨_, rfl, unquoted⟩

end IsLexeme

theorem literalOf_string (body : List Char) :
    literalOf .string ('"' :: body ++ ['"']) = .string (String.ofList body) := by
  simp [literalOf]

/-- A token tells nothing that its text does not tell: marks and reserved words are spelled as their
kind is, identifiers are none of the reserved words, the value of a string is what stands between
its quotes, a numeral has a number, and no other token has a value. -/
structure Token.AgreesWithLexeme (t : Token) : Prop where
  spelled : ((∃ p, t.kind = .mark p) ∨ ∃ k, t.kind = .keyword k) →
    t.kind.spelling? = some t.lexeme
  free : t.kind = .identifier → ∀ k : Keyword, k.spelling ≠ t.lexeme
  quoted : t.kind = .string → ∃ body : List Char,
    t.lexeme.toList = '"' :: body ++ ['"'] ∧ '"' ∉ body ∧ t.literal = .string (String.ofList body)
  numeral : t.kind = .number → ∃ x, t.literal = .number x
  absent : t.kind ≠ .string → t.kind ≠ .number → t.literal = .absent

theorem Token.IsSound.agreesWithLexeme {t : Token} (h : t.IsSound) : t.AgreesWithLexeme := by
  have hliteral := h.literal
  refine ⟨?_, ?_, ?_, ?_, ?_⟩
  · rintro (⟨p, hkind⟩ | ⟨k, hkind⟩)
    all_goals
      have hspelling := (h.isLexeme hkind (by simp)).eq_spelling rfl
      rw [hkind]
      exact congrArg some (String.toList_inj.1 hspelling).symm
  · intro hkind k hspelling
    have hfree := (h.isLexeme hkind (by simp)).ne_spelling k
    exact hfree (congrArg String.toList hspelling)
  · intro hkind
    obtain ⟨body, htext, hunquoted⟩ := (h.isLexeme hkind (by simp)).exists_body
    rw [hkind, htext, literalOf_string] at hliteral
    exact ⟨body, htext, hunquoted, hliteral⟩
  · intro hkind
    rw [hkind] at hliteral
    exact ⟨_, hliteral⟩
  · intro hstring hnumber
    rw [hliteral]
    cases hkind : t.kind with
    | string => exact absurd hkind hstring
    | number => exact absurd hkind hnumber
    | _ => rfl

/-! ## Tokens on their own -/

/-- The text of a token of any scan, scanned alone, is that token again at the start of a text, and
nothing else up to the end; tokens of the same text, wherever they were found, are of one kind and
have one value; and a token agrees with its text. -/
theorem lexeme_alone {source : String} {t : Token} (ht : t ∈ (scan source).tokens)
    (hkind : t.kind ≠ .eof) :
    tokenize t.lexeme = .ok
        [⟨t.kind, t.lexeme, t.literal, 1, ⟨0, utf8Length t.lexeme.toList⟩⟩,
          ⟨.eof, "", .absent, 1 + t.lexeme.toList.count '\n',
            ⟨utf8Length t.lexeme.toList, utf8Length t.lexeme.toList⟩⟩] ∧
      (∀ other : String, ∀ u ∈ (scan other).tokens, u.lexeme = t.lexeme →
        u.kind = t.kind ∧ u.literal = t.literal) ∧
      t.AgreesWithLexeme := by
  have hsound := isSound_of_mem_tokens ht
  refine ⟨?_, ?_, hsound.agreesWithLexeme⟩
  · have halone := tokenize_lexeme (hsound.isLexeme rfl hkind)
    rw [String.ofList_toList, ← hsound.literal] at halone
    exact halone
  · intro other u hu hlexeme
    exact hsound.eq_of_lexeme_eq (isSound_of_mem_tokens hu) hlexeme

/-- A string over two lines, between a stray character and an open string. -/
theorem lexeme_alone_beside_errors :
    (scan "@ \"a\nb\" \"").errors ≠ [] ∧
      (⟨.string, "\"a\nb\"", .string "a\nb", 1, ⟨2, 7⟩⟩ : Token)
        ∈ (scan "@ \"a\nb\" \"").tokens ∧
      tokenize "\"a\nb\"" = .ok
        [⟨.string, "\"a\nb\"", .string "a\nb", 1, ⟨0, 5⟩⟩, ⟨.eof, "", .absent, 2, ⟨5, 5⟩⟩] := by
  have hmem : (⟨.string, "\"a\nb\"", .string "a\nb", 1, ⟨2, 7⟩⟩ : Token)
      ∈ (scan "@ \"a\nb\" \"").tokens := by decide +kernel
  exact ⟨by decide +kernel, hmem, (lexeme_alone hmem (by decide)).1⟩

end Lox
