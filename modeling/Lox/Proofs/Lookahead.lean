import Lox.Proofs.LongestMatch

/-!
# Looking ahead

What may follow a lexeme without making it part of a longer match (`Extends`).
`isLongestMatch_append_iff` reduces the search through all texts that begin a source to a look at
the one or two characters behind a lexeme.
-/

set_option autoImplicit false

namespace Lox

/-! ## What extends a lexeme -/

/-- The character that makes a mark part of a longer match: `=` doubles an operator, and two slashes
open a comment. -/
def Punctuation.extension? : Punctuation → Option Char
  | .bang | .equal | .less | .greater => some '='
  | .slash => some '/'
  | _ => none

/-- Whether the text `after` a lexeme makes it part of a longer match. Only a number without a
fraction looks at two characters. -/
def Extends (kind : Kind) (text after : List Char) : Prop :=
  match kind with
  | .keyword _ | .identifier => ∃ c ∈ after.head?, isWordPart c = true
  | .number =>
    (∃ c ∈ after.head?, c.isDigit = true) ∨
      ('.' ∉ text ∧ ∃ d s, after = '.' :: d :: s ∧ d.isDigit = true)
  | .mark p => ∃ c ∈ p.extension?, after.head? = some c
  | .string | .eof => False

theorem matches_of_isWord {text : List Char} (h : IsWord text) : Matches text :=
  .inl ⟨_, isLexeme_ofWord h⟩

theorem IsWord.append {text : List Char} (h : IsWord text) {c : Char} (hc : isWordPart c = true) :
    IsWord (text ++ [c]) := by
  obtain ⟨d, s, rfl, hd, hs⟩ := h
  refine ⟨d, s ++ [c], rfl, hd, fun e he => ?_⟩
  rcases List.mem_append.1 he with he | he
  · exact hs e he
  · exact List.mem_singleton.1 he ▸ hc

theorem IsDigits.append {text : List Char} (h : IsDigits text) {c : Char} (hc : c.isDigit = true) :
    IsDigits (text ++ [c]) := by
  refine ⟨by simp, fun e he => ?_⟩
  rcases List.mem_append.1 he with he | he
  · exact h.2 e he
  · exact List.mem_singleton.1 he ▸ hc

theorem IsDigits.point_notMem {text : List Char} (h : IsDigits text) : '.' ∉ text :=
  fun hmem => absurd (h.2 '.' hmem) (by decide)

/-- What extends a lexeme begins with a text that makes it a longer match. -/
theorem Extends.exists_matches {kind : Kind} {text after : List Char}
    (hlex : IsLexeme kind text) (h : Extends kind text after) :
    ∃ more, more ≠ [] ∧ more <+: after ∧ Matches (text ++ more) := by
  have hhead : ∀ {c : Char}, after.head? = some c → [c] <+: after := by
    intro c hc
    obtain ⟨s, rfl⟩ := List.head?_eq_some_iff.1 hc
    exact ⟨s, rfl⟩
  have hword : ∀ {c : Char}, c ∈ after.head? → isWordPart c = true → IsWord text →
      ∃ more, more ≠ [] ∧ more <+: after ∧ Matches (text ++ more) :=
    fun {c} hmem hc word =>
      ⟨[c], List.cons_ne_nil _ _, hhead hmem, matches_of_isWord (word.append hc)⟩
  -- one character more makes a longer match, but for the point and the digit after a number
  cases hlex with
  | keyword k =>
    obtain ⟨c, hmem, hc⟩ := h
    exact hword hmem hc k.isWord_spelling
  | identifier word _ =>
    obtain ⟨c, hmem, hc⟩ := h
    exact hword hmem hc word
  | whole digits =>
    rcases h with ⟨c, hmem, hc⟩ | ⟨-, d, s, rfl, hd⟩
    · exact ⟨[c], List.cons_ne_nil _ _, hhead hmem, .inl ⟨_, .whole (digits.append hc)⟩⟩
    · refine ⟨['.', d], List.cons_ne_nil _ _, ⟨s, rfl⟩, .inl ⟨_, .fractional digits ?_⟩⟩
      exact ⟨List.cons_ne_nil _ _, by simpa using hd⟩
  | @fractional whole fraction wholeDigits fractionDigits =>
    rcases h with ⟨c, hmem, hc⟩ | ⟨hpoint, -⟩
    · refine ⟨[c], List.cons_ne_nil _ _, hhead hmem, .inl ⟨.number, ?_⟩⟩
      rw [List.append_assoc, List.cons_append]
      exact .fractional wholeDigits (fractionDigits.append hc)
    · exact absurd (by simp) hpoint
  | string _ => exact h.elim
  | mark p =>
    obtain ⟨c, hmem, hc⟩ := h
    refine ⟨[c], List.cons_ne_nil _ _, hhead hc, ?_⟩
    have hequal : ∀ q : Punctuation, q.spelling.toList = p.spelling.toList ++ [c] →
        Matches (p.spelling.toList ++ [c]) := fun q hq => hq ▸ .inl ⟨_, .mark q⟩
    cases p <;> cases hmem
    · exact .inr (.comment (by simp))
    · exact hequal .bangEqual rfl
    · exact hequal .equalEqual rfl
    · exact hequal .greaterEqual rfl
    · exact hequal .lessEqual rfl

/-- A number that begins another one is followed there by a digit, or by a point and a digit. -/
theorem extends_of_number_append {text more : List Char} (hmore : more ≠ [])
    (h : IsLexeme .number (text ++ more)) (rest : List Char) :
    Extends .number text (more ++ rest) := by
  obtain ⟨c, s, rfl⟩ := List.exists_cons_of_ne_nil hmore
  generalize ht : text ++ c :: s = longer at h
  cases h with
  | whole digits =>
    exact .inl ⟨c, rfl, digits.2 c (by simp [← ht])⟩
  | @fractional whole fraction wholeDigits fractionDigits =>
    have hpoint : text = whole → c :: s = '.' :: fraction →
        Extends .number text (c :: s ++ rest) := by
      rintro rfl hs
      obtain ⟨rfl, rfl⟩ := List.cons.inj hs
      obtain ⟨d, f, rfl⟩ := List.exists_cons_of_ne_nil fractionDigits.1
      exact .inr ⟨wholeDigits.point_notMem, d, f ++ rest, rfl,
        fractionDigits.2 d List.mem_cons_self⟩
    rcases List.append_eq_append_iff.1 ht with ⟨u, hu, hs⟩ | ⟨u, hu, hs⟩
    · -- the shorter number ends before the point of the longer one, or at it
      cases u with
      | nil => exact hpoint (by simpa using hu.symm) hs
      | cons d u =>
        obtain ⟨rfl, -⟩ := List.cons.inj hs
        exact .inl ⟨c, rfl, wholeDigits.2 c (by simp [hu])⟩
    · -- the shorter number goes beyond the point
      cases u with
      | nil => exact hpoint (by simpa using hu) hs.symm
      | cons d u =>
        obtain ⟨rfl, rfl⟩ := List.cons.inj hs
        exact .inl ⟨c, rfl, fractionDigits.2 c (by simp)⟩

theorem Punctuation.extension?_of_spelling_append {p q : Punctuation} {c : Char} {s : List Char}
    (h : q.spelling.toList = p.spelling.toList ++ c :: s) : p.extension? = some c := by
  revert h
  cases q <;> cases p <;> simp [spelling, extension?] <;> exact fun hc _ => hc

/-- A longer match than a lexeme is one because of what the lexeme looks ahead to. -/
theorem extends_of_matches_append {kind : Kind} {text more : List Char} (hlex : IsLexeme kind text)
    (hmore : more ≠ []) (h : Matches (text ++ more)) (rest : List Char) :
    Extends kind text (more ++ rest) := by
  obtain ⟨c, s, rfl⟩ := List.exists_cons_of_ne_nil hmore
  have hword : IsWord text → ∃ d ∈ (c :: s ++ rest).head?, isWordPart d = true := by
    rintro ⟨d, w, rfl, hd, -⟩
    exact ⟨c, rfl, h.of_isWordStart hd c (by simp)⟩
  have hnumber : kind = .number → Extends .number text (c :: s ++ rest) := by
    rintro rfl
    refine extends_of_number_append hmore ?_ rest
    obtain ⟨d, w, rfl⟩ := List.exists_cons_of_ne_nil hlex.text_ne_nil
    rcases hlex.cases_head with ⟨-, hk, -⟩ | ⟨hd, -⟩ | ⟨hd, hk, -⟩ | ⟨p, hk, -⟩
    · exact absurd hk (by simp)
    · exact h.of_isDigit hd
    · exact absurd hk (by unfold Kind.ofWord; split <;> simp)
    · exact absurd hk (by simp)
  cases hlex with
  | keyword k => exact hword k.isWord_spelling
  | identifier word _ => exact hword word
  | whole _ => exact hnumber rfl
  | fractional _ _ => exact hnumber rfl
  | @string body unquoted =>
    -- the quote that closes the string would be inside the longer one
    obtain ⟨body', hbody', hs⟩ := h.of_quote
    have hlen := congrArg List.length hs
    have hmem : '"' ∈ body' := by
      have hbegins : body ++ ['"'] <+: body' ++ ['"'] := ⟨c :: s, by simpa using hs⟩
      have hle : (body ++ ['"']).length ≤ body'.length := by
        simp at hlen ⊢
        omega
      have hbody : body ++ ['"'] <+: body' :=
        List.prefix_of_prefix_length_le hbegins (List.prefix_append _ _) hle
      exact hbody.subset (by simp)
    exact absurd hmem hbody'
  | mark p =>
    obtain ⟨d, w, hd⟩ := List.exists_cons_of_ne_nil (IsLexeme.mark p).text_ne_nil
    obtain ⟨hq, hpart, hspace⟩ := Punctuation.spelling_head hd
    refine ⟨c, ?_, rfl⟩
    rw [hd] at h
    rcases h.of_other hq hpart hspace with ⟨rfl, u, -, hu⟩ | ⟨q, hq⟩
    · cases p <;> simp_all [Punctuation.spelling, Punctuation.extension?]
    · exact Punctuation.extension?_of_spelling_append (hq.trans (by rw [hd]; rfl))

/-- A lexeme is the longest match of a source that begins with it exactly if what follows does not
extend it. -/
theorem isLongestMatch_append_iff {kind : Kind} {text after : List Char}
    (hlex : IsLexeme kind text) :
    IsLongestMatch text (text ++ after) ↔ ¬ Extends kind text after := by
  constructor
  · intro h hext
    obtain ⟨more, hne, hmore, hmatch⟩ := hext.exists_matches hlex
    have hle := h.longest _ ((List.prefix_append_right_inj text).2 hmore) hmatch
    rw [List.length_append] at hle
    have hpos := List.length_pos_iff.2 hne
    omega
  · intro hext
    refine ⟨List.prefix_append _ _, .inl ⟨kind, hlex⟩, fun t ht hmatch => ?_⟩
    by_contra hlt
    -- a longer match begins with the lexeme, since both begin the same source
    have htext : text <+: t :=
      List.prefix_of_prefix_length_le (List.prefix_append _ _) ht (by omega)
    obtain ⟨more, rfl⟩ := htext
    obtain ⟨rest, rfl⟩ := (List.prefix_append_right_inj text).1 ht
    have hne : more ≠ [] := by
      rintro rfl
      simp at hlt
    exact hext (extends_of_matches_append hlex hne hmatch rest)

/-- Nothing looks ahead to a space character. -/
theorem not_extends_of_isSpace {kind : Kind} {text s : List Char} {c : Char}
    (hc : isSpace c = true) : ¬ Extends kind text (c :: s) := by
  have hpart := not_isWordPart_of_isSpace hc
  have hword : ¬ ∃ d ∈ (c :: s).head?, isWordPart d = true := by
    rintro ⟨d, hd, h⟩
    obtain rfl := Option.some.inj hd
    exact absurd h (by simp [hpart])
  cases kind with
  | keyword k => exact hword
  | identifier => exact hword
  | number =>
    rintro (⟨d, hd, h⟩ | ⟨-, d, r, h, -⟩)
    · exact hword ⟨d, hd, isWordPart_of_isDigit h⟩
    · obtain ⟨rfl, -⟩ := List.cons.inj h
      exact absurd hc (by decide)
  | mark p =>
    rintro ⟨e, he, h⟩
    obtain rfl := Option.some.inj h
    cases p <;> cases he <;> exact absurd hc (by decide)
  | string => exact id
  | eof => exact id

/-- No lexeme has a space character in it, except for strings. -/
theorem IsLexeme.notMem_of_isSpace {kind : Kind} {text : List Char} (h : IsLexeme kind text)
    (hkind : kind ≠ .string) {c : Char} (hc : isSpace c = true) : c ∉ text := by
  have hpart := not_isWordPart_of_isSpace hc
  have hword : ∀ {s : List Char}, IsWord s → c ∉ s := by
    rintro _ ⟨d, s, rfl, hd, hs⟩ hmem
    rcases List.mem_cons.1 hmem with rfl | hmem
    · exact Bool.false_ne_true (hpart.symm.trans (isWordPart_of_isWordStart hd))
    · exact Bool.false_ne_true (hpart.symm.trans (hs c hmem))
  have hdigits : ∀ {s : List Char}, IsDigits s → c ∉ s := fun h hmem =>
    Bool.false_ne_true (hpart.symm.trans (isWordPart_of_isDigit (h.2 c hmem)))
  cases h with
  | mark p =>
    intro hmem
    have hall : p.spelling.toList.all (fun d => !isSpace d) = true := by cases p <;> rfl
    have hspace := List.all_eq_true.1 hall c hmem
    simp [hc] at hspace
  | keyword k => exact hword k.isWord_spelling
  | identifier word _ => exact hword word
  | whole isDigits => exact hdigits isDigits
  | fractional wholeDigits fractionDigits =>
    have hpoint : c ≠ '.' := by
      rintro rfl
      exact absurd hc (by decide)
    simp [hdigits wholeDigits, hdigits fractionDigits, hpoint]
  | string _ => exact absurd rfl hkind

/-- A space character is a match by itself, whatever follows. -/
theorem isLongestMatch_space {c : Char} (hc : isSpace c = true) (after : List Char) :
    IsLongestMatch [c] (c :: after) := by
  refine ⟨⟨after, rfl⟩, .inr (.space hc), fun t ht hmatch => ?_⟩
  cases t with
  | nil => simp
  | cons d s =>
    obtain ⟨rfl, -⟩ := List.cons_prefix_cons.1 ht
    simp [hmatch.of_isSpace hc]

/-- A comment is the longest match where a line feed or the end of the source follows. -/
theorem isLongestMatch_comment {text after : List Char} (oneLine : '\n' ∉ text)
    (hafter : ∀ c ∈ after.head?, c = '\n') :
    IsLongestMatch ('/' :: '/' :: text) ('/' :: '/' :: text ++ after) := by
  refine ⟨List.prefix_append _ _, .inr (.comment oneLine), fun t ht hmatch => ?_⟩
  by_contra hlt
  obtain ⟨more, rfl⟩ : '/' :: '/' :: text <+: t :=
    List.prefix_of_prefix_length_le (List.prefix_append _ _) ht (by omega)
  obtain ⟨rest, rfl⟩ := (List.prefix_append_right_inj _).1 ht
  obtain ⟨c, s, rfl⟩ : ∃ c s, more = c :: s :=
    List.exists_cons_of_ne_nil (by rintro rfl; simp at hlt)
  -- so a longer match goes on with a line feed, which no comment has in it
  obtain rfl : c = '\n' := hafter c rfl
  rcases hmatch.of_other (by decide) (by decide) (by decide) with ⟨-, u, hu, hs⟩ | ⟨p, hp⟩
  · obtain rfl := (List.cons.inj hs).2
    exact hu (by simp)
  · revert hp
    cases p <;> simp [Punctuation.spelling]

end Lox
