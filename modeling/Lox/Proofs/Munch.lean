import Lox.Proofs.Events
import Lox.Proofs.Lookahead

/-!
# Maximal munch

The rule that cuts a source into pieces, said without a way of doing it (`IsSplit`): every piece is
the longest match that begins what is left, and where nothing matches, an open quote takes all that
is left and any other character stands alone. The first piece of a text obeys the rule
(`isFirst_first`) and nothing else does (`IsFirst.unique`). So a source has exactly one split, and
a scan reports that split piece by piece (`exists_split_and_yields`).
-/

set_option autoImplicit false

namespace Lox

/-! ## The rule -/

/-- What the first piece of a source is. -/
inductive IsNext (s : List Char) : List Char → Prop where
  | longest {text : List Char} (isLongest : IsLongestMatch text s) : IsNext s text
  | openString (unmatched : Unmatched s) (quote : s.head? = some '"') : IsNext s s
  | stray {c : Char} (unmatched : Unmatched s) (head : s.head? = some c) (noQuote : c ≠ '"') :
      IsNext s [c]

/-- Consecutive pieces that make up a source, each what the first piece of the rest is. -/
inductive IsSplit : List Char → List (List Char) → Prop where
  | nil : IsSplit [] []
  | cons {text rest : List Char} {texts : List (List Char)} (nonempty : text ≠ [])
      (next : IsNext (text ++ rest) text) (split : IsSplit rest texts) :
      IsSplit (text ++ rest) (text :: texts)

/-- The tokens and errors of pieces, the first of which begins at a position: a token for a lexeme,
an error for a piece that is no match, and the end of the source for the end. -/
inductive Yields : Position → List (List Char) → List Token → List Diagnostic → Prop where
  | nil (p : Position) : Yields p [] [⟨.eof, "", .absent, p.line, ⟨p.offset, p.offset⟩⟩] []
  | lexeme {p : Position} {kind : Kind} {text : List Char} {texts : List (List Char)}
      {tokens : List Token} {errors : List Diagnostic} (lexeme : IsLexeme kind text)
      (later : Yields (p.advance text) texts tokens errors) :
      Yields p (text :: texts)
        (⟨kind, String.ofList text, literalOf kind text, p.line,
          ⟨p.offset, p.offset + utf8Length text⟩⟩ :: tokens) errors
  | skippable {p : Position} {text : List Char} {texts : List (List Char)} {tokens : List Token}
      {errors : List Diagnostic} (skippable : IsSkippable text)
      (later : Yields (p.advance text) texts tokens errors) :
      Yields p (text :: texts) tokens errors
  | openString {p : Position} {text : List Char} {texts : List (List Char)} {tokens : List Token}
      {errors : List Diagnostic} (noMatch : ¬ Matches text) (quote : text.head? = some '"')
      (later : Yields (p.advance text) texts tokens errors) :
      Yields p (text :: texts) tokens (⟨p.line, "", "Unterminated string."⟩ :: errors)
  | stray {p : Position} {c : Char} {texts : List (List Char)} {tokens : List Token}
      {errors : List Diagnostic} (noMatch : ¬ Matches [c]) (noQuote : c ≠ '"')
      (later : Yields (p.advance [c]) texts tokens errors) :
      Yields p ([c] :: texts) tokens (⟨p.line, "", "Unexpected character."⟩ :: errors)

/-- A piece is known as what it is. -/
inductive Piece.IsSound : Piece → Prop where
  | lexeme {kind : Kind} {text : List Char} (lexeme : IsLexeme kind text) :
      IsSound (.lexeme kind text)
  | blank {text : List Char} (skippable : IsSkippable text) : IsSound (.blank text)
  | stray {c : Char} (noMatch : ¬ Matches [c]) (noQuote : c ≠ '"') : IsSound (.stray c)
  | openString {text : List Char} (noMatch : ¬ Matches text) (quote : text.head? = some '"') :
      IsSound (.openString text)

/-- A piece is what the first piece of a source is, and known as what it is. -/
structure IsFirst (s : List Char) (x : Piece) : Prop where
  sound : x.IsSound
  next : IsNext s x.text

/-! ## The first piece obeys the rule -/

namespace IsFirst

variable {s : List Char}

theorem lexeme {kind : Kind} {text : List Char} (hlex : IsLexeme kind text)
    (longest : IsLongestMatch text s) : IsFirst s (.lexeme kind text) :=
  ⟨.lexeme hlex, .longest longest⟩

theorem blank {text : List Char} (hskip : IsSkippable text) (longest : IsLongestMatch text s) :
    IsFirst s (.blank text) :=
  ⟨.blank hskip, .longest longest⟩

theorem stray {c : Char} (unmatched : Unmatched s) (head : s.head? = some c) (noQuote : c ≠ '"') :
    IsFirst s (.stray c) := by
  have hbegins : [c] <+: s := by
    obtain ⟨r, rfl⟩ := List.head?_eq_some_iff.1 head
    exact ⟨r, rfl⟩
  exact ⟨.stray (unmatched _ hbegins) noQuote, .stray unmatched head noQuote⟩

theorem openString (unmatched : Unmatched s) (quote : s.head? = some '"') :
    IsFirst s (.openString s) :=
  ⟨.openString (unmatched s List.prefix_rfl) quote, .openString unmatched quote⟩

end IsFirst

/-- A lexeme that what follows does not extend is the first piece. -/
theorem isFirst_of_not_extends {kind : Kind} {text after : List Char} (hlex : IsLexeme kind text)
    (hext : ¬ Extends kind text after) : IsFirst (text ++ after) (.lexeme kind text) :=
  .lexeme hlex ((isLongestMatch_append_iff hlex).2 hext)

theorem isFirst_string (s : List Char) : IsFirst ('"' :: s) (Piece.string s) := by
  unfold Piece.string
  split
  next h =>
    have hlex : IsLexeme .string ('"' :: s.takeWhile (· ≠ '"') ++ ['"']) :=
      .string fun hmem => by simpa using List.mem_takeWhile_imp hmem
    have hbegins := Piece.isPrefix_string s
    rw [Piece.string, if_pos h] at hbegins
    obtain ⟨after, hafter⟩ := hbegins
    rw [← hafter]
    exact isFirst_of_not_extends hlex id
  next h =>
    -- a match that begins with a quote ends with one, and there is none
    refine .openString (fun t ht hmatch => ?_) rfl
    cases t with
    | nil => exact hmatch.text_ne_nil rfl
    | cons c t =>
      obtain ⟨rfl, hu⟩ := List.cons_prefix_cons.1 ht
      obtain ⟨body, -, rfl⟩ := hmatch.of_quote
      exact h (hu.subset (List.mem_append_right body (List.mem_singleton_self _)))

/-- The character at which a run ends does not belong to the run. -/
theorem not_of_mem_head?_dropWhile {p : Char → Bool} {s : List Char} {c : Char}
    (h : c ∈ (s.dropWhile p).head?) : p c = false := by
  have := List.head?_dropWhile_not p s
  rw [Option.mem_def.1 h] at this
  simpa using this

theorem isDigits_cons_takeWhile {c : Char} (hc : c.isDigit = true) (s : List Char) :
    IsDigits (c :: s.takeWhile Char.isDigit) := by
  refine ⟨List.cons_ne_nil _ _, fun d hd => ?_⟩
  rcases List.mem_cons.1 hd with rfl | hd
  · exact hc
  · exact List.mem_takeWhile_imp hd

theorem isFirst_number {c : Char} (hc : c.isDigit = true) (s : List Char) :
    IsFirst (c :: s) (Piece.number c s) := by
  have hwhole := isDigits_cons_takeWhile hc s
  have hsplit : c :: s = c :: s.takeWhile Char.isDigit ++ s.dropWhile Char.isDigit := by simp
  have hhead : ∀ d ∈ (s.dropWhile Char.isDigit).head?, d.isDigit = false :=
    fun d hd => not_of_mem_head?_dropWhile hd
  unfold Piece.number
  rw [hsplit]
  generalize c :: s.takeWhile Char.isDigit = whole at hwhole ⊢
  generalize s.dropWhile Char.isDigit = rest at hhead ⊢
  unfold Piece.fraction
  split
  next r =>
    dsimp only
    split
    next hempty =>
      -- a point that no digit follows is left where it is
      rw [List.append_nil]
      refine isFirst_of_not_extends (.whole hwhole) ?_
      rintro (⟨d, hd, hdigit⟩ | ⟨-, d, t, hr, hdigit⟩)
      · exact absurd hdigit (by simp [hhead d hd])
      · obtain rfl := (List.cons.inj hr).2
        simp [hdigit] at hempty
    next hempty =>
      have hfraction : IsDigits (r.takeWhile Char.isDigit) :=
        ⟨by simpa using hempty, fun d hd => List.mem_takeWhile_imp hd⟩
      have hr : whole ++ '.' :: r
          = whole ++ '.' :: r.takeWhile Char.isDigit ++ r.dropWhile Char.isDigit := by simp
      rw [hr]
      refine isFirst_of_not_extends (.fractional hwhole hfraction) ?_
      rintro (⟨d, hd, hdigit⟩ | ⟨hpoint, -⟩)
      · exact absurd hdigit (by simp [not_of_mem_head?_dropWhile hd])
      · exact hpoint (by simp)
  next hpoint =>
    rw [List.append_nil]
    refine isFirst_of_not_extends (.whole hwhole) ?_
    rintro (⟨d, hd, hdigit⟩ | ⟨-, d, t, hr, -⟩)
    · exact absurd hdigit (by simp [hhead d hd])
    · exact hpoint _ hr

theorem isFirst_word {c : Char} (hc : isWordStart c = true) (s : List Char) :
    IsFirst (c :: s) (Piece.word c s) := by
  have hword : IsWord (c :: s.takeWhile isWordPart) :=
    ⟨c, _, rfl, hc, fun d hd => List.mem_takeWhile_imp hd⟩
  have hsplit : c :: s = c :: s.takeWhile isWordPart ++ s.dropWhile isWordPart := by simp
  unfold Piece.word
  rw [hsplit]
  refine isFirst_of_not_extends (isLexeme_ofWord hword) ?_
  have hstop : ¬ ∃ d ∈ (s.dropWhile isWordPart).head?, isWordPart d = true := by
    rintro ⟨d, hd, hpart⟩
    exact absurd hpart (by simp [not_of_mem_head?_dropWhile hd])
  unfold Kind.ofWord
  split <;> exact hstop

theorem isFirst_comment (s : List Char) :
    IsFirst ('/' :: '/' :: s) (.blank ('/' :: ('/' :: s).takeWhile (· ≠ '\n'))) := by
  have hline : '\n' ∉ s.takeWhile (· ≠ '\n') := fun hmem => by
    simpa using List.mem_takeWhile_imp hmem
  have htake : ('/' :: s).takeWhile (· ≠ '\n') = '/' :: s.takeWhile (· ≠ '\n') := rfl
  have hsplit : '/' :: '/' :: s
      = '/' :: '/' :: s.takeWhile (· ≠ '\n') ++ s.dropWhile (· ≠ '\n') := by simp
  rw [htake, hsplit]
  refine .blank (.comment hline) (isLongestMatch_comment hline fun d hd => ?_)
  simpa using not_of_mem_head?_dropWhile hd

theorem Punctuation.length_spelling_le (p : Punctuation) : p.spelling.toList.length ≤ 2 := by
  cases p <;> decide

/-- A mark that looks ahead has one character; with the character that it looks for it makes another
mark, or it opens a comment. -/
theorem Punctuation.of_extension? {p : Punctuation} {e : Char} (h : p.extension? = some e) :
    p.spelling.toList.length = 1 ∧
      ((p = .slash ∧ e = '/') ∨
        ∃ q : Punctuation, q.spelling.toList = p.spelling.toList ++ [e]) := by
  cases p <;> cases h
  · exact ⟨rfl, .inl ⟨rfl, rfl⟩⟩
  · exact ⟨rfl, .inr ⟨.bangEqual, rfl⟩⟩
  · exact ⟨rfl, .inr ⟨.equalEqual, rfl⟩⟩
  · exact ⟨rfl, .inr ⟨.greaterEqual, rfl⟩⟩
  · exact ⟨rfl, .inr ⟨.lessEqual, rfl⟩⟩

theorem Piece.mark?_eq_some {c : Char} {s : List Char} {p : Punctuation}
    (h : Piece.mark? c s = some p) :
    p.spelling.toList = c :: s.take 1 ∨
      (Punctuation.ofSpelling? (c :: s.take 1) = none ∧ p.spelling.toList = [c]) := by
  unfold mark? at h
  rcases Option.or_eq_some_iff.1 (by simpa using h) with h | ⟨hnone, h⟩
  · exact .inl (Punctuation.ofSpelling?_eq_some_iff.1 h)
  · exact .inr ⟨hnone, Punctuation.ofSpelling?_eq_some_iff.1 h⟩

theorem isFirst_mark {c : Char} {s : List Char} {p : Punctuation}
    (hcomment : ¬ (c = '/' ∧ s.head? = some '/')) (h : Piece.mark? c s = some p) :
    IsFirst (c :: s) (.lexeme (.mark p) p.spelling.toList) := by
  obtain ⟨after, hafter⟩ := Piece.isPrefix_of_mark? h
  rw [← hafter]
  refine isFirst_of_not_extends (.mark p) ?_
  rintro ⟨e, he, hhead⟩
  -- what the mark would be extended by makes a mark of two characters, which goes first
  obtain ⟨hlen, hlonger⟩ := Punctuation.of_extension? he
  have hspelling : p.spelling.toList = [c] := by
    rcases Piece.mark?_eq_some h with hp | ⟨-, hp⟩
    · rw [hp, List.length_cons, Nat.add_eq_right, List.length_eq_zero_iff] at hlen
      rw [hp, hlen]
    · exact hp
  rw [hspelling] at hafter hlonger
  obtain rfl : after = s := (List.cons.inj hafter).2
  obtain ⟨r, rfl⟩ := List.head?_eq_some_iff.1 hhead
  rcases hlonger with ⟨rfl, rfl⟩ | ⟨q, hq⟩
  · obtain rfl : '/' = c := (List.cons.inj hspelling).1
    exact hcomment ⟨rfl, rfl⟩
  · rcases Piece.mark?_eq_some h with hp | ⟨hnone, -⟩
    · rw [hspelling] at hp
      simp at hp
    · have hsome := Punctuation.ofSpelling?_eq_some_iff.2 hq
      rw [show c :: (e :: r).take 1 = [c] ++ [e] from rfl, hsome] at hnone
      exact absurd hnone (by simp)

theorem isFirst_stray {c : Char} {s : List Char} (hquote : c ≠ '"') (hpart : isWordPart c = false)
    (hspace : isSpace c = false) (hcomment : ¬ (c = '/' ∧ s.head? = some '/'))
    (h : Piece.mark? c s = none) : IsFirst (c :: s) (.stray c) := by
  obtain ⟨htwo, hone⟩ : Punctuation.ofSpelling? (c :: s.take 1) = none ∧
      Punctuation.ofSpelling? [c] = none := by
    simpa [Piece.mark?] using h
  refine .stray (fun t ht hmatch => ?_) rfl hquote
  obtain ⟨d, u, rfl⟩ := List.exists_cons_of_ne_nil hmatch.text_ne_nil
  obtain ⟨rfl, hu⟩ := List.cons_prefix_cons.1 ht
  rcases hmatch.of_other hquote hpart hspace with ⟨rfl, text, -, rfl⟩ | ⟨p, hp⟩
  · obtain ⟨r, rfl⟩ := hu
    exact hcomment ⟨rfl, rfl⟩
  · -- a mark has one or two characters, and both texts were looked up
    have hlen := p.length_spelling_le
    have hsome := Punctuation.ofSpelling?_eq_some_iff.2 hp
    obtain ⟨r, rfl⟩ := hu
    match u, hlen, hsome with
    | [], _, hsome => exact absurd hone (by simp [hsome])
    | [e], _, hsome => exact absurd htwo (by simpa using Option.ne_none_iff_exists'.2 ⟨p, hsome⟩)
    | e :: f :: u, hlen, _ => rw [hp] at hlen; simp at hlen

/-- The first piece of a text is what the rule asks for. -/
theorem isFirst_first (c : Char) (s : List Char) : IsFirst (c :: s) (Piece.first c s) := by
  unfold Piece.first
  split
  next h => exact h ▸ isFirst_string s
  next hquote =>
    split
    next hdigit => exact isFirst_number hdigit s
    next hdigit =>
      split
      next hstart => exact isFirst_word hstart s
      next hstart =>
        have hpart : isWordPart c = false :=
          not_isWordPart (by simpa using hstart) (by simpa using hdigit)
        split
        next hspace => exact .blank (.space hspace) (isLongestMatch_space hspace s)
        next hspace =>
          split
          next h =>
            obtain ⟨rfl, hs⟩ := h
            obtain ⟨r, rfl⟩ := List.head?_eq_some_iff.1 hs
            exact isFirst_comment r
          next hcomment =>
            split
            next p h => exact isFirst_mark hcomment h
            next h => exact isFirst_stray hquote hpart (by simpa using hspace) hcomment h

/-! ## Nothing else obeys the rule -/

theorem IsLongestMatch.unique {text text' s : List Char} (h : IsLongestMatch text s)
    (h' : IsLongestMatch text' s) : text = text' := by
  have hle := h'.longest text h.begins h.isMatch
  have hge := h.longest text' h'.begins h'.isMatch
  exact (List.prefix_of_prefix_length_le h.begins h'.begins hle).eq_of_length (by omega)

theorem IsLongestMatch.not_unmatched {text s : List Char} (h : IsLongestMatch text s) :
    ¬ Unmatched s :=
  fun hun => hun text h.begins h.isMatch

theorem IsNext.unique {s text text' : List Char} (h : IsNext s text) (h' : IsNext s text') :
    text = text' := by
  cases h with
  | longest h =>
    cases h' with
    | longest h' => exact h.unique h'
    | openString hun _ => exact absurd hun h.not_unmatched
    | stray hun _ _ => exact absurd hun h.not_unmatched
  | openString hun quote =>
    cases h' with
    | longest h' => exact absurd hun h'.not_unmatched
    | openString _ _ => rfl
    | stray _ head noQuote => exact absurd (Option.some.inj (head.symm.trans quote)) noQuote
  | stray hun head noQuote =>
    cases h' with
    | longest h' => exact absurd hun h'.not_unmatched
    | openString _ quote => exact absurd (Option.some.inj (head.symm.trans quote)) noQuote
    | stray _ head' _ => rw [Option.some.inj (head.symm.trans head')]

namespace Piece.IsSound

variable {x y : Piece}

theorem eq_lexeme {kind : Kind} {text : List Char} (h : x.IsSound) (hlex : IsLexeme kind text)
    (htext : x.text = text) : x = .lexeme kind text := by
  subst htext
  cases h with
  | lexeme hlex' => rw [hlex'.kind_unique hlex, Piece.text]
  | blank hskip => exact absurd hskip hlex.not_isSkippable
  | stray hno _ => exact absurd (.inl ⟨kind, hlex⟩) hno
  | openString hno _ => exact absurd (.inl ⟨kind, hlex⟩) hno

theorem eq_blank {text : List Char} (h : x.IsSound) (hskip : IsSkippable text)
    (htext : x.text = text) : x = .blank text := by
  subst htext
  cases h with
  | lexeme hlex => exact absurd hskip hlex.not_isSkippable
  | blank _ => rfl
  | stray hno _ => exact absurd (.inr hskip) hno
  | openString hno _ => exact absurd (.inr hskip) hno

theorem eq_stray {c : Char} (h : x.IsSound) (hno : ¬ Matches [c]) (hquote : c ≠ '"')
    (htext : x.text = [c]) : x = .stray c := by
  cases h with
  | @lexeme kind text hlex =>
    obtain rfl : text = [c] := htext
    exact absurd (.inl ⟨kind, hlex⟩) hno
  | @blank text hskip =>
    obtain rfl : text = [c] := htext
    exact absurd (.inr hskip) hno
  | stray _ _ => rw [(List.cons.inj htext).1]
  | @openString text _ head =>
    obtain rfl : text = [c] := htext
    exact absurd (Option.some.inj head) hquote

theorem eq_openString {text : List Char} (h : x.IsSound) (hno : ¬ Matches text)
    (head : text.head? = some '"') (htext : x.text = text) : x = .openString text := by
  subst htext
  cases h with
  | lexeme hlex => exact absurd (.inl ⟨_, hlex⟩) hno
  | blank hskip => exact absurd (.inr hskip) hno
  | stray _ hquote => exact absurd (Option.some.inj head) hquote
  | openString _ _ => rfl

/-- What a sound piece is known as is settled by its text. -/
theorem unique (hx : x.IsSound) (hy : y.IsSound) (htext : x.text = y.text) : x = y := by
  cases hx with
  | lexeme hlex => exact (hy.eq_lexeme hlex htext.symm).symm
  | blank hskip => exact (hy.eq_blank hskip htext.symm).symm
  | stray hno hquote => exact (hy.eq_stray hno hquote htext.symm).symm
  | openString hno head => exact (hy.eq_openString hno head htext.symm).symm

end Piece.IsSound

theorem Piece.IsSound.text_ne_nil {x : Piece} (h : x.IsSound) : x.text ≠ [] := by
  cases h with
  | lexeme hlex => exact hlex.text_ne_nil
  | blank hskip => exact Matches.text_ne_nil (.inr hskip)
  | stray _ _ => exact List.cons_ne_nil _ _
  | openString _ head =>
    rintro rfl
    exact absurd head (by simp)

theorem IsFirst.unique {s : List Char} {x y : Piece} (h : IsFirst s x) (h' : IsFirst s y) :
    x = y :=
  h.sound.unique h'.sound (h.next.unique h'.next)

theorem IsNext.isPrefix {s text : List Char} (h : IsNext s text) : text <+: s := by
  cases h with
  | longest h => exact h.begins
  | openString _ _ => exact List.prefix_rfl
  | stray _ head _ =>
    obtain ⟨r, rfl⟩ := List.head?_eq_some_iff.1 head
    exact ⟨r, rfl⟩

theorem IsNext.isLongestMatch {s text : List Char} (h : IsNext s text) (hmatch : Matches text) :
    IsLongestMatch text s := by
  cases h with
  | longest h => exact h
  | openString hun _ => exact absurd hmatch (hun _ List.prefix_rfl)
  | stray hun head _ =>
    obtain ⟨r, rfl⟩ := List.head?_eq_some_iff.1 head
    exact absurd hmatch (hun _ ⟨r, rfl⟩)

theorem IsNext.unmatched {s text : List Char} (h : IsNext s text) (hno : ¬ Matches text) :
    Unmatched s := by
  cases h with
  | longest h => exact absurd h.isMatch hno
  | openString hun _ => exact hun
  | stray hun _ _ => exact hun

theorem IsFirst.of_lexeme {s text : List Char} {kind : Kind} (h : IsFirst s (.lexeme kind text)) :
    IsLexeme kind text ∧ IsLongestMatch text s := by
  cases h.sound with
  | lexeme hlex => exact ⟨hlex, h.next.isLongestMatch (.inl ⟨kind, hlex⟩)⟩

/-- An open string is all that is left, and no second quote is in it. -/
theorem IsFirst.of_openString {s text : List Char} (h : IsFirst s (.openString text)) :
    text = s ∧ ∃ body, s = '"' :: body ∧ '"' ∉ body := by
  cases h.sound with
  | openString hno head =>
    have hnext : IsNext s text := h.next
    have hun := hnext.unmatched hno
    have htext : text = s := by
      cases hnext with
      | longest h => exact absurd hun h.not_unmatched
      | openString _ _ => rfl
      | stray _ _ noQuote => exact absurd (Option.some.inj head) noQuote
    obtain ⟨body, rfl⟩ := List.head?_eq_some_iff.1 head
    refine ⟨htext, body, htext.symm, fun hmem => ?_⟩
    obtain ⟨inner, after, rfl, hinner⟩ := List.eq_append_cons_of_mem hmem
    have hmatch : Matches ('"' :: inner ++ ['"']) := .inl ⟨.string, .string hinner⟩
    exact hun _ ⟨after, by simp [← htext]⟩ hmatch

/-- Whatever obeys the rule is the first piece, and the pieces go on behind it. -/
theorem pieces_of_isFirst {x : Piece} {rest : List Char} (h : IsFirst (x.text ++ rest) x) :
    pieces (x.text ++ rest) = x :: pieces rest := by
  have hne : x.text ++ rest ≠ [] := by simp [h.sound.text_ne_nil]
  obtain ⟨c, s, hs⟩ := List.exists_cons_of_ne_nil hne
  -- the first piece found obeys the rule too, and the rule leaves no choice
  have hx : x = Piece.first c s := (hs ▸ h).unique (isFirst_first c s)
  have hrest : rest = afterFirst c s := by
    have hsplit := first_append_afterFirst c s
    rw [← hx, ← hs] at hsplit
    exact (List.append_cancel_left hsplit).symm
  rw [hs, pieces_cons, ← hx, ← hrest]

theorem pieces_lexeme_append {kind : Kind} {text after : List Char} (hlex : IsLexeme kind text)
    (hext : ¬ Extends kind text after) :
    pieces (text ++ after) = .lexeme kind text :: pieces after :=
  pieces_of_isFirst (x := .lexeme kind text) (isFirst_of_not_extends hlex hext)

theorem pieces_space_cons {c : Char} (hc : isSpace c = true) (s : List Char) :
    pieces (c :: s) = .blank [c] :: pieces s :=
  pieces_of_isFirst (x := .blank [c]) (.blank (.space hc) (isLongestMatch_space hc s))

theorem pieces_comment_append {text after : List Char} (oneLine : '\n' ∉ text)
    (hafter : ∀ c ∈ after.head?, c = '\n') :
    pieces ('/' :: '/' :: text ++ after) = .blank ('/' :: '/' :: text) :: pieces after :=
  pieces_of_isFirst (x := .blank ('/' :: '/' :: text))
    (.blank (.comment oneLine) (isLongestMatch_comment oneLine hafter))

/-! ## The split of a source -/

theorem isSplit_pieces : (s : List Char) → IsSplit s ((pieces s).map Piece.text)
  | [] => by
    rw [pieces_nil]
    exact .nil
  | c :: s => by
    have hnext := (isFirst_first c s).next
    have hcut := first_append_afterFirst c s
    rw [pieces_cons, List.map_cons, ← hcut]
    exact .cons (Piece.first_text_ne_nil c s) (hcut ▸ hnext) (isSplit_pieces (afterFirst c s))
termination_by s => s.length
decreasing_by exact Nat.lt_succ_of_le (length_afterFirst_le c s)

theorem IsSplit.unique {s : List Char} {texts : List (List Char)} (h : IsSplit s texts) :
    ∀ {texts'}, IsSplit s texts' → texts = texts' := by
  -- along the first split: the other one has the same first piece, hence the same rest
  induction h with
  | nil =>
    intro texts' h'
    generalize hs : ([] : List Char) = s at h'
    cases h' with
    | nil => rfl
    | cons nonempty _ _ => exact absurd (List.append_eq_nil_iff.1 hs.symm).1 nonempty
  | @cons text rest texts nonempty next _ ih =>
    intro texts' h'
    generalize hs : text ++ rest = s at h'
    cases h' with
    | nil => exact absurd (List.append_eq_nil_iff.1 hs).1 nonempty
    | @cons text' rest' texts' _ next' split' =>
      obtain rfl : text = text' := next.unique (hs ▸ next')
      obtain rfl : rest = rest' := List.append_cancel_left hs
      rw [ih split']

/-- The pieces of a source are its split, and there is no other one. -/
theorem isSplit_iff {s : List Char} {texts : List (List Char)} :
    IsSplit s texts ↔ texts = (pieces s).map Piece.text :=
  ⟨fun h => h.unique (isSplit_pieces s), fun h => h ▸ isSplit_pieces s⟩

/-! ## What a split yields -/

theorem isSound_of_mem_pieces : (s : List Char) → ∀ x ∈ pieces s, x.IsSound
  | [] => by simp
  | c :: s => by
    intro x hx
    rw [pieces_cons] at hx
    rcases List.mem_cons.1 hx with rfl | hx
    · exact (isFirst_first c s).sound
    · exact isSound_of_mem_pieces (afterFirst c s) x hx
termination_by s => s.length
decreasing_by exact Nat.lt_succ_of_le (length_afterFirst_le c s)

/-- Pieces yield what their scan finds. -/
theorem yields_scanOf {xs : List Piece} (hxs : ∀ x ∈ xs, x.IsSound) (p : Position) :
    Yields p (xs.map Piece.text) (scanOf p xs).tokens (scanOf p xs).errors := by
  induction xs generalizing p with
  | nil => exact .nil p
  | cons x xs ih =>
    obtain ⟨hx, hxs⟩ := List.forall_mem_cons.1 hxs
    rw [scanOf_cons_tokens, scanOf_cons_errors]
    have hlater := ih hxs (p.advance x.text)
    cases hx with
    | lexeme hlex => exact .lexeme hlex hlater
    | blank hskip => exact .skippable hskip hlater
    | stray hno hquote => exact .stray hno hquote hlater
    | openString hno head => exact .openString hno head hlater

/-- Whatever yields tokens and errors are pieces that are known as what they are. -/
theorem Yields.exists_pieces {p : Position} {texts : List (List Char)} {tokens : List Token}
    {errors : List Diagnostic} (h : Yields p texts tokens errors) :
    ∃ xs : List Piece, (∀ x ∈ xs, x.IsSound) ∧ xs.map Piece.text = texts ∧
      (scanOf p xs).tokens = tokens ∧ (scanOf p xs).errors = errors := by
  have hcons : ∀ {p : Position} {x : Piece} {texts : List (List Char)} {tokens : List Token}
      {errors : List Diagnostic}, x.IsSound →
      (∃ xs : List Piece, (∀ y ∈ xs, y.IsSound) ∧ xs.map Piece.text = texts ∧
        (scanOf (p.advance x.text) xs).tokens = tokens ∧
        (scanOf (p.advance x.text) xs).errors = errors) →
      ∃ xs : List Piece, (∀ y ∈ xs, y.IsSound) ∧ xs.map Piece.text = x.text :: texts ∧
        (scanOf p xs).tokens = (x.eventAt? p).toList.filterMap Event.token? ++ tokens ∧
        (scanOf p xs).errors = (x.eventAt? p).toList.filterMap Event.diagnostic? ++ errors := by
    rintro p x texts tokens errors hx ⟨xs, hxs, rfl, rfl, rfl⟩
    exact ⟨x :: xs, List.forall_mem_cons.2 ⟨hx, hxs⟩, rfl, scanOf_cons_tokens p x xs,
      scanOf_cons_errors p x xs⟩
  induction h with
  | nil p => exact ⟨[], by simp, rfl, rfl, rfl⟩
  | lexeme hlex _ ih => exact hcons (.lexeme hlex) ih
  | skippable hskip _ ih => exact hcons (.blank hskip) ih
  | openString hno head _ ih => exact hcons (.openString hno head) ih
  | stray hno hquote _ ih => exact hcons (.stray hno hquote) ih

theorem eq_of_map_text_eq {xs ys : List Piece} (hxs : ∀ x ∈ xs, x.IsSound)
    (hys : ∀ y ∈ ys, y.IsSound) (h : xs.map Piece.text = ys.map Piece.text) : xs = ys := by
  induction xs generalizing ys with
  | nil =>
    rw [List.map_nil] at h
    exact (List.map_eq_nil_iff.1 h.symm).symm
  | cons x xs ih =>
    obtain ⟨y, ys, rfl, hxy, htail⟩ := List.map_eq_cons_iff.1 h.symm
    obtain ⟨hx, hxs⟩ := List.forall_mem_cons.1 hxs
    obtain ⟨hy, hys⟩ := List.forall_mem_cons.1 hys
    rw [hx.unique hy hxy.symm, ih hxs hys htail.symm]

/-- What pieces yield is what their scan finds, and nothing else. -/
theorem yields_iff {xs : List Piece} (hxs : ∀ x ∈ xs, x.IsSound) {p : Position}
    {tokens : List Token} {errors : List Diagnostic} :
    Yields p (xs.map Piece.text) tokens errors ↔
      tokens = (scanOf p xs).tokens ∧ errors = (scanOf p xs).errors := by
  constructor
  · intro h
    obtain ⟨ys, hys, htexts, rfl, rfl⟩ := h.exists_pieces
    rw [eq_of_map_text_eq hys hxs htexts]
    exact ⟨rfl, rfl⟩
  · rintro ⟨rfl, rfl⟩
    exact yields_scanOf hxs p

/-- **A scan is a maximal munch.** Every source has exactly one split into pieces each of which is
the longest match, or what stands where there is no match; the tokens and errors of the scan are
exactly those that this split yields. -/
theorem exists_split_and_yields (source : String) :
    ∃ texts, (∀ other, IsSplit source.toList other ↔ other = texts) ∧
      ∀ tokens errors, Yields .start texts tokens errors ↔
        tokens = (scan source).tokens ∧ errors = (scan source).errors := by
  refine ⟨(pieces source.toList).map Piece.text, fun other => isSplit_iff, fun tokens errors => ?_⟩
  rw [yields_iff (isSound_of_mem_pieces source.toList), scanOf_pieces]
  rfl

end Lox
