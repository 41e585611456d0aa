import Lox.Grammar
import Mathlib.Data.List.TakeWhile

/-!
# Longest matches

A text *matches* if the grammar lets it stand in a source: it is a lexeme, or it is skippable. This
file says which matches begin with which characters (`Matches.cases_head`), and that a lexeme has
one kind only (`IsLexeme.kind_unique`) and is never skippable.
-/

set_option autoImplicit false

namespace Lox

/-! ## Matches -/

/-- The texts that a source is cut into as long as nothing is wrong with it. -/
def Matches (text : List Char) : Prop :=
  (∃ kind, IsLexeme kind text) ∨ IsSkippable text

/-- `text` begins `s` and matches, and no longer text does both. -/
structure IsLongestMatch (text s : List Char) : Prop where
  begins : text <+: s
  isMatch : Matches text
  longest : ∀ t, t <+: s → Matches t → t.length ≤ text.length

/-- No text that begins `s` matches. -/
def Unmatched (s : List Char) : Prop :=
  ∀ t, t <+: s → ¬ Matches t

/-! ## Characters of the classes -/

theorem not_isDigit_of_isWordStart {c : Char} (h : isWordStart c = true) : c.isDigit = false := by
  by_contra hd
  have hdigit : c.toNat ≤ '9'.toNat :=
    (Char.isDigit_iff_toNat.1 ((Bool.not_eq_false _).mp hd)).2
  have h9 : '9'.toNat = 57 := rfl
  rcases Bool.or_eq_true_iff.1 h with halpha | hunderscore
  · rcases Bool.or_eq_true_iff.1 halpha with hupper | hlower
    · have hA : 'A'.toNat ≤ c.toNat := UInt32.le_iff_toNat_le.1 (of_decide_eq_true hupper).1
      have h65 : 'A'.toNat = 65 := rfl
      omega
    · have ha : 'a'.toNat ≤ c.toNat :=
        UInt32.le_iff_toNat_le.1 (of_decide_eq_true (Bool.and_eq_true_iff.1 hlower).1)
      have h97 : 'a'.toNat = 97 := rfl
      omega
  · obtain rfl : c = '_' := by simpa using hunderscore
    exact absurd hd (by decide)

theorem isWordPart_of_isWordStart {c : Char} (h : isWordStart c = true) : isWordPart c = true := by
  rw [isWordPart, h, Bool.true_or]

theorem isWordPart_of_isDigit {c : Char} (h : c.isDigit = true) : isWordPart c = true := by
  rw [isWordPart, h, Bool.or_true]

theorem not_isWordPart {c : Char} (hstart : isWordStart c = false) (hdigit : c.isDigit = false) :
    isWordPart c = false := by
  rw [isWordPart, hstart, hdigit, Bool.or_self]

theorem not_isWordPart_of_isSpace {c : Char} (h : isSpace c = true) : isWordPart c = false := by
  simp only [isSpace, Bool.or_eq_true, beq_iff_eq] at h
  rcases h with ((rfl | rfl) | rfl) | rfl <;> decide

/-! ## How lexemes begin -/

theorem Punctuation.spelling_head {p : Punctuation} {c : Char} {s : List Char}
    (h : p.spelling.toList = c :: s) :
    c ≠ '"' ∧ isWordPart c = false ∧ isSpace c = false := by
  have hc : p.spelling.toList.head? = some c := by rw [h]; rfl
  revert hc
  cases p <;> (rintro ⟨⟩; decide)

/-- No mark begins like a word, a number or a string. -/
theorem Punctuation.ofSpelling?_eq_none {c : Char} {s : List Char}
    (h : c = '"' ∨ isWordPart c = true) : ofSpelling? (c :: s) = none := by
  cases hp : ofSpelling? (c :: s) with
  | none => rfl
  | some p =>
    obtain ⟨hq, hpart, -⟩ := spelling_head (ofSpelling?_eq_some_iff.1 hp)
    rcases h with rfl | h
    · exact absurd rfl hq
    · exact absurd h (by simp [hpart])

theorem Keyword.isWord_spelling (k : Keyword) : IsWord k.spelling.toList := by
  have hne : k.spelling.toList ≠ [] := by cases k <;> decide
  have hparts : k.spelling.toList.tail.all isWordPart = true := by cases k <;> decide
  refine ⟨k.spelling.toList.head hne, k.spelling.toList.tail, ?_, ?_, ?_⟩
  · exact (List.cons_head_tail hne).symm
  · cases k <;> rfl
  · exact List.all_eq_true.1 hparts

/-- Every word is a lexeme: a reserved word or an identifier. -/
theorem isLexeme_ofWord {text : List Char} (h : IsWord text) : IsLexeme (.ofWord text) text := by
  unfold Kind.ofWord
  split
  next k hk => exact Keyword.ofSpelling?_eq_some_iff.1 hk ▸ .keyword k
  next hk =>
    refine .identifier h (fun k hk' => ?_)
    rw [Keyword.ofSpelling?_eq_some_iff.2 hk'] at hk
    exact absurd hk (by simp)

theorem Kind.ofWord_eq_identifier {text : List Char}
    (free : ∀ k : Keyword, k.spelling.toList ≠ text) : ofWord text = .identifier := by
  unfold ofWord
  split
  next k hk => exact absurd (Keyword.ofSpelling?_eq_some_iff.1 hk) (free k)
  next => rfl

theorem Kind.ofWord_spelling (k : Keyword) : ofWord k.spelling.toList = .keyword k := by
  rw [ofWord, Keyword.ofSpelling?_eq_some_iff.2 rfl]

/-! ## Lexemes and matches by their first character -/

/-- What a lexeme looks like, by the class of the character that it begins with. -/
theorem IsLexeme.cases_head {kind : Kind} {c : Char} {s : List Char}
    (h : IsLexeme kind (c :: s)) :
    (c = '"' ∧ kind = .string ∧ ∃ body, '"' ∉ body ∧ s = body ++ ['"']) ∨
    (c.isDigit = true ∧ kind = .number) ∨
    (isWordStart c = true ∧ kind = .ofWord (c :: s) ∧ ∀ d ∈ s, isWordPart d = true) ∨
    (∃ p : Punctuation, kind = .mark p ∧ p.spelling.toList = c :: s) := by
  generalize ht : c :: s = text at h
  have hword : IsWord text → isWordStart c = true ∧ ∀ d ∈ s, isWordPart d = true := by
    rintro ⟨d, w, rfl, hd, hw⟩
    obtain ⟨rfl, rfl⟩ := List.cons.inj ht
    exact ⟨hd, hw⟩
  cases h with
  | mark p => exact .inr (.inr (.inr ⟨p, rfl, rfl⟩))
  | keyword k =>
    obtain ⟨hc, hs⟩ := hword k.isWord_spelling
    exact .inr (.inr (.inl ⟨hc, (Kind.ofWord_spelling k).symm, hs⟩))
  | identifier word free =>
    obtain ⟨hc, hs⟩ := hword word
    exact .inr (.inr (.inl ⟨hc, (Kind.ofWord_eq_identifier free).symm, hs⟩))
  | whole digits => exact .inr (.inl ⟨digits.2 c (by simp [← ht]), rfl⟩)
  | @fractional whole fraction wholeDigits _ =>
    obtain ⟨d, w, rfl⟩ := List.exists_cons_of_ne_nil wholeDigits.1
    rw [List.cons_append, List.cons.injEq] at ht
    exact .inr (.inl ⟨wholeDigits.2 c (by simp [ht.1]), rfl⟩)
  | string unquoted =>
    obtain ⟨rfl, rfl⟩ := List.cons.inj ht
    exact .inl ⟨rfl, rfl, _, unquoted, rfl⟩

theorem IsLexeme.text_ne_nil {kind : Kind} {text : List Char} (h : IsLexeme kind text) :
    text ≠ [] := by
  cases h with
  | mark p => cases p <;> decide
  | keyword k => cases k <;> decide
  | identifier word _ =>
    obtain ⟨c, s, rfl, -⟩ := word
    exact List.cons_ne_nil _ _
  | whole digits => exact digits.1
  | fractional _ _ => simp
  | string _ => simp

/-- The kind of a lexeme, found from its text alone. -/
def Kind.ofLexeme (text : List Char) : Kind :=
  match Punctuation.ofSpelling? text with
  | some p => .mark p
  | none =>
    if text.head? = some '"' then .string
    else if text.head?.any Char.isDigit then .number
    else .ofWord text

theorem IsLexeme.kind_eq {kind : Kind} {text : List Char} (h : IsLexeme kind text) :
    kind = .ofLexeme text := by
  obtain ⟨c, s, rfl⟩ := List.exists_cons_of_ne_nil h.text_ne_nil
  unfold Kind.ofLexeme
  -- the first character tells the class, and with it which test of `Kind.ofLexeme` is met
  rcases h.cases_head with ⟨rfl, rfl, -⟩ | ⟨hc, rfl⟩ | ⟨hc, rfl, -⟩ | ⟨p, rfl, hp⟩
  · rw [Punctuation.ofSpelling?_eq_none (.inl rfl)]
    rfl
  · have hq : c ≠ '"' := by
      rintro rfl
      exact absurd hc (by decide)
    rw [Punctuation.ofSpelling?_eq_none (.inr (isWordPart_of_isDigit hc))]
    simp [hq, hc]
  · have hq : c ≠ '"' := by
      rintro rfl
      exact absurd hc (by decide)
    rw [Punctuation.ofSpelling?_eq_none (.inr (isWordPart_of_isWordStart hc))]
    simp [hq, not_isDigit_of_isWordStart hc]
  · rw [Punctuation.ofSpelling?_eq_some_iff.2 hp]

/-- A text is a lexeme of one kind at most. -/
theorem IsLexeme.kind_unique {kind kind' : Kind} {text : List Char} (h : IsLexeme kind text)
    (h' : IsLexeme kind' text) : kind = kind' :=
  h.kind_eq.trans h'.kind_eq.symm

/-- What a match looks like, by the class of the character that it begins with. -/
theorem Matches.cases_head {c : Char} {s : List Char} (h : Matches (c :: s)) :
    (c = '"' ∧ ∃ body, '"' ∉ body ∧ s = body ++ ['"']) ∨
    (c.isDigit = true ∧ IsLexeme .number (c :: s)) ∨
    (isWordStart c = true ∧ ∀ d ∈ s, isWordPart d = true) ∨
    (isSpace c = true ∧ s = []) ∨
    (c = '/' ∧ ∃ text, '\n' ∉ text ∧ s = '/' :: text) ∨
    (∃ p : Punctuation, p.spelling.toList = c :: s) := by
  rcases h with ⟨kind, h⟩ | h
  · rcases h.cases_head with ⟨hc, -, hs⟩ | ⟨hc, rfl⟩ | ⟨hc, -, hs⟩ | ⟨p, -, hp⟩
    · exact .inl ⟨hc, hs⟩
    · exact .inr (.inl ⟨hc, h⟩)
    · exact .inr (.inr (.inl ⟨hc, hs⟩))
    · exact .inr (.inr (.inr (.inr (.inr ⟨p, hp⟩))))
  · cases h with
    | space hc => exact .inr (.inr (.inr (.inl ⟨hc, rfl⟩)))
    | comment oneLine => exact .inr (.inr (.inr (.inr (.inl ⟨rfl, _, oneLine, rfl⟩))))

theorem Matches.text_ne_nil {text : List Char} (h : Matches text) : text ≠ [] := by
  rcases h with ⟨kind, h⟩ | h
  · exact h.text_ne_nil
  · cases h <;> exact List.cons_ne_nil _ _

section ByHead

variable {c : Char} {s : List Char}

theorem Matches.of_quote (h : Matches ('"' :: s)) : ∃ body, '"' ∉ body ∧ s = body ++ ['"'] := by
  rcases h.cases_head with h | ⟨h, -⟩ | ⟨h, -⟩ | ⟨h, -⟩ | ⟨h, -⟩ | ⟨p, h⟩
  · exact h.2
  · exact absurd h (by decide)
  · exact absurd h (by decide)
  · exact absurd h (by decide)
  · exact absurd h (by decide)
  · exact absurd rfl (Punctuation.spelling_head h).1

theorem Matches.of_isDigit (h : Matches (c :: s)) (hc : c.isDigit = true) :
    IsLexeme .number (c :: s) := by
  have hpart := isWordPart_of_isDigit hc
  rcases h.cases_head with ⟨rfl, -⟩ | ⟨-, h⟩ | ⟨h, -⟩ | ⟨h, -⟩ | ⟨rfl, -⟩ | ⟨p, h⟩
  · exact absurd hc (by decide)
  · exact h
  · exact absurd hc (by simp [not_isDigit_of_isWordStart h])
  · exact absurd hpart (by simp [not_isWordPart_of_isSpace h])
  · exact absurd hc (by decide)
  · exact absurd hpart (by simp [(Punctuation.spelling_head h).2.1])

theorem Matches.of_isWordStart (h : Matches (c :: s)) (hc : isWordStart c = true) :
    ∀ d ∈ s, isWordPart d = true := by
  have hpart := isWordPart_of_isWordStart hc
  rcases h.cases_head with ⟨rfl, -⟩ | ⟨h, -⟩ | ⟨-, h⟩ | ⟨h, -⟩ | ⟨rfl, -⟩ | ⟨p, h⟩
  · exact absurd hc (by decide)
  · exact absurd h (by simp [not_isDigit_of_isWordStart hc])
  · exact h
  · exact absurd hpart (by simp [not_isWordPart_of_isSpace h])
  · exact absurd hc (by decide)
  · exact absurd hpart (by simp [(Punctuation.spelling_head h).2.1])

theorem Matches.of_isSpace (h : Matches (c :: s)) (hc : isSpace c = true) : s = [] := by
  have hpart := not_isWordPart_of_isSpace hc
  rcases h.cases_head with ⟨rfl, -⟩ | ⟨h, -⟩ | ⟨h, -⟩ | ⟨-, h⟩ | ⟨rfl, -⟩ | ⟨p, h⟩
  · exact absurd hc (by decide)
  · exact absurd (isWordPart_of_isDigit h) (by simp [hpart])
  · exact absurd (isWordPart_of_isWordStart h) (by simp [hpart])
  · exact h
  · exact absurd hc (by decide)
  · exact absurd hc (by simp [(Punctuation.spelling_head h).2.2])

/-- A match that begins with none of the other classes is a mark or a comment. -/
theorem Matches.of_other (h : Matches (c :: s)) (hq : c ≠ '"') (hpart : isWordPart c = false)
    (hspace : isSpace c = false) :
    (c = '/' ∧ ∃ text, '\n' ∉ text ∧ s = '/' :: text) ∨
      ∃ p : Punctuation, p.spelling.toList = c :: s := by
  rcases h.cases_head with ⟨h, -⟩ | ⟨h, -⟩ | ⟨h, -⟩ | ⟨h, -⟩ | h
  · exact absurd h hq
  · exact absurd (isWordPart_of_isDigit h) (by simp [hpart])
  · exact absurd (isWordPart_of_isWordStart h) (by simp [hpart])
  · exact absurd h (by simp [hspace])
  · exact h

end ByHead

/-- No lexeme is skippable. -/
theorem IsLexeme.not_isSkippable {kind : Kind} {text : List Char} (h : IsLexeme kind text) :
    ¬ IsSkippable text := by
  intro hskip
  -- a lexeme that begins like a skippable text can only be a mark
  have hhead : ∀ c s, text = c :: s → isWordPart c = false → c ≠ '"' →
      ∃ p : Punctuation, p.spelling.toList = text := by
    rintro c s rfl hpart hq
    rcases h.cases_head with ⟨hc, -⟩ | ⟨hc, -⟩ | ⟨hc, -⟩ | ⟨p, -, hp⟩
    · exact absurd hc hq
    · exact absurd (isWordPart_of_isDigit hc) (by simp [hpart])
    · exact absurd (isWordPart_of_isWordStart hc) (by simp [hpart])
    · exact ⟨p, hp⟩
  cases hskip with
  | @space c hc =>
    obtain ⟨p, hp⟩ := hhead c [] rfl (not_isWordPart_of_isSpace hc)
      (by rintro rfl; exact absurd hc (by decide))
    exact absurd hc (by simp [(Punctuation.spelling_head hp).2.2])
  | comment _ =>
    obtain ⟨p, hp⟩ := hhead _ _ rfl (by decide) (by decide)
    revert hp
    cases p <;> simp [Punctuation.spelling]

end Lox
