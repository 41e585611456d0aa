import Lox.Proofs.Places
import Mathlib.Data.List.Basic

/-!
# Written lexemes

Lexemes written one after the other, with gaps between them (`layout`). A scan finds exactly these
lexemes, each where it was written, unless two or three of them touch that together make a longer
match somewhere (`HasClash`); and then it does find something else (`scan_layout_iff`).
-/

set_option autoImplicit false

namespace Lox

/-! ## Gaps -/

/-- White space and whole comments, each with the line feed that ends it. -/
inductive IsFiller : List Char → Prop where
  | nil : IsFiller []
  | space {c : Char} {s : List Char} (isSpace : isSpace c = true) (more : IsFiller s) :
      IsFiller (c :: s)
  | comment {text s : List Char} (oneLine : '\n' ∉ text) (more : IsFiller s) :
      IsFiller ('/' :: '/' :: text ++ '\n' :: s)

/-- What may stand between two lexemes: nothing, or filler that begins with a space character. -/
inductive IsGap : List Char → Prop where
  | nil : IsGap []
  | space {c : Char} {s : List Char} (isSpace : isSpace c = true) (more : IsFiller s) :
      IsGap (c :: s)

theorem IsGap.isFiller {gap : List Char} (h : IsGap gap) : IsFiller gap := by
  cases h with
  | nil => exact .nil
  | space hc more => exact .space hc more

theorem IsGap.eq_nil_or {gap : List Char} (h : IsGap gap) :
    gap = [] ∨ ∃ c s, gap = c :: s ∧ isSpace c = true := by
  cases h with
  | nil => exact .inl rfl
  | space hc _ => exact .inr ⟨_, _, rfl, hc⟩

/-- Filler is cut into blanks, whatever follows it. -/
theorem pieces_filler_append {filler : List Char} (h : IsFiller filler) (s : List Char) :
    ∃ blanks : List (List Char), blanks.flatten = filler ∧
      pieces (filler ++ s) = blanks.map Piece.blank ++ pieces s := by
  induction h with
  | nil => exact ⟨[], rfl, rfl⟩
  | @space c filler hc _ ih =>
    obtain ⟨blanks, rfl, hblanks⟩ := ih
    refine ⟨[c] :: blanks, rfl, ?_⟩
    rw [List.cons_append, pieces_space_cons hc, hblanks]
    rfl
  | @comment text filler oneLine _ ih =>
    obtain ⟨blanks, rfl, hblanks⟩ := ih
    -- the line feed is no part of the comment but a blank of its own
    refine ⟨('/' :: '/' :: text) :: ['\n'] :: blanks, by simp, ?_⟩
    have hfeed : ∀ c ∈ ('\n' :: (blanks.flatten ++ s)).head?, c = '\n' :=
      fun c hc => (Option.some.inj hc).symm
    have hcut : '/' :: '/' :: text ++ '\n' :: blanks.flatten ++ s
        = '/' :: '/' :: text ++ ('\n' :: (blanks.flatten ++ s)) := by simp
    rw [hcut, pieces_comment_append oneLine hfeed, pieces_space_cons (by decide), hblanks]
    rfl

/-! ## Layouts -/

/-- A lexeme and the gap after it. -/
structure Written where
  kind : Kind
  text : List Char
  gap : List Char
  isLexeme : IsLexeme kind text
  isGap : IsGap gap

/-- The text after the lexeme `w`, if `ws` are written after it; the last gap is not written. -/
def layoutAfter (w : Written) : List Written → List Char
  | [] => []
  | v :: ws => w.gap ++ v.text ++ layoutAfter v ws

/-- Lexemes and the gaps between them. -/
def layout : List Written → List Char
  | [] => []
  | w :: ws => w.text ++ layoutAfter w ws

/-- Kinds, texts and spans of written lexemes, the first of which begins at byte `n`. -/
def writtenFrom (n : Nat) : List Written → List (Kind × String × Span)
  | [] => []
  | w :: ws =>
    (w.kind, String.ofList w.text, ⟨n, n + utf8Length w.text⟩)
      :: writtenFrom (n + utf8Length w.text + utf8Length w.gap) ws

/-! ## Clashes -/

/-- The kinds of words. -/
def Kind.isWord : Kind → Bool
  | keyword _ => true
  | identifier => true
  | _ => false

/-- Two lexemes of these kinds that touch make a longer match. -/
inductive Clash : Kind → Kind → Prop where
  | wordWord {k l : Kind} (first : k.isWord = true) (second : l.isWord = true) : Clash k l
  | wordNumber {k : Kind} (first : k.isWord = true) : Clash k .number
  | numberNumber : Clash .number .number
  | equals {p q : Punctuation} (first : p ∈ [.bang, .equal, .less, .greater])
      (second : q ∈ [.equal, .equalEqual]) : Clash (.mark p) (.mark q)
  | slashes : Clash (.mark .slash) (.mark .slash)

/-- Somewhere two lexemes touch that clash, or a number without a fraction, a point and a number
touch. -/
inductive HasClash : List Written → Prop where
  | pair {earlier later : List Written} {w v : Written} (touch : w.gap = [])
      (clash : Clash w.kind v.kind) : HasClash (earlier ++ w :: v :: later)
  | point {earlier later : List Written} {w d v : Written} (touch : w.gap = [])
      (touch' : d.gap = []) (whole : w.kind = .number) (noFraction : '.' ∉ w.text)
      (dot : d.kind = .mark .dot) (number : v.kind = .number) :
      HasClash (earlier ++ w :: d :: v :: later)

/-- The two ways to clash, at the first of some written lexemes. -/
def ClashesAt (w : Written) (ws : List Written) : Prop :=
  ∃ v later, ws = v :: later ∧ w.gap = [] ∧
    (Clash w.kind v.kind ∨
      (w.kind = .number ∧ '.' ∉ w.text ∧ v.kind = .mark .dot ∧ v.gap = [] ∧
        ∃ u later', later = u :: later' ∧ u.kind = .number))

theorem hasClash_iff {ws : List Written} :
    HasClash ws ↔ ∃ earlier w later, ws = earlier ++ w :: later ∧ ClashesAt w later := by
  constructor
  · rintro (⟨touch, clash⟩ | ⟨touch, touch', whole, noFraction, dot, number⟩)
    · exact ⟨_, _, _, rfl, _, _, rfl, touch, .inl clash⟩
    · exact ⟨_, _, _, rfl, _, _, rfl, touch,
        .inr ⟨whole, noFraction, dot, touch', _, _, rfl, number⟩⟩
  · rintro ⟨earlier, w, later, rfl, v, later, rfl, touch, clash | hpoint⟩
    · exact .pair touch clash
    · obtain ⟨whole, noFraction, dot, touch', u, later', rfl, number⟩ := hpoint
      exact .point touch touch' whole noFraction dot number

theorem clashesAt_cons {w v : Written} {later : List Written} :
    ClashesAt w (v :: later) ↔ w.gap = [] ∧ (Clash w.kind v.kind ∨
      (w.kind = .number ∧ '.' ∉ w.text ∧ v.kind = .mark .dot ∧ v.gap = [] ∧
        ∃ u later', later = u :: later' ∧ u.kind = .number)) := by
  constructor
  · rintro ⟨_, _, h, hgap⟩
    obtain ⟨rfl, rfl⟩ := List.cons.inj h
    exact hgap
  · intro h
    exact ⟨v, later, rfl, h⟩

/-! ## What follows a lexeme in a layout -/

/-- What the first character of a lexeme tells about its kind. -/
theorem Written.cases_head {w : Written} {c : Char} {s : List Char} (h : w.text = c :: s) :
    (w.kind = .string ∧ c = '"') ∨ (w.kind = .number ∧ c.isDigit = true) ∨
      (w.kind.isWord = true ∧ isWordStart c = true) ∨
      ∃ p : Punctuation, w.kind = .mark p ∧ p.spelling.toList = c :: s := by
  rcases (h ▸ w.isLexeme).cases_head with ⟨hc, hk, -⟩ | ⟨hc, hk⟩ | ⟨hc, hk, -⟩ | hp
  · exact .inl ⟨hk, hc⟩
  · exact .inr (.inl ⟨hk, hc⟩)
  · refine .inr (.inr (.inl ⟨?_, hc⟩))
    rw [hk]
    unfold Kind.ofWord
    split <;> rfl
  · exact .inr (.inr (.inr hp))

/-- A lexeme that begins with a digit is a number, and the other way round. -/
theorem Written.isDigit_head_iff {w : Written} {c : Char} {s : List Char} (h : w.text = c :: s) :
    c.isDigit = true ↔ w.kind = .number := by
  rcases w.cases_head h with ⟨hk, rfl⟩ | ⟨hk, hc⟩ | ⟨hk, hc⟩ | ⟨p, hk, hp⟩
  · simp [hk, show ('"').isDigit = false by decide]
  · simp [hk, hc]
  · have hnumber : w.kind ≠ .number := by
      intro hnumber
      rw [hnumber] at hk
      exact absurd hk (by decide)
    simp [hnumber, not_isDigit_of_isWordStart hc]
  · have hc : ¬ c.isDigit = true := fun hc =>
      absurd (isWordPart_of_isDigit hc) (by simp [(Punctuation.spelling_head hp).2.1])
    simp [hk, hc]

theorem Written.isWordPart_head_iff {w : Written} {c : Char} {s : List Char} (h : w.text = c :: s) :
    isWordPart c = true ↔ w.kind.isWord = true ∨ w.kind = .number := by
  rcases w.cases_head h with ⟨hk, rfl⟩ | ⟨hk, hc⟩ | ⟨hk, hc⟩ | ⟨p, hk, hp⟩
  · simp [hk, Kind.isWord, show isWordPart '"' = false by decide]
  · simp [hk, isWordPart_of_isDigit hc]
  · simp [hk, isWordPart_of_isWordStart hc]
  · simp [hk, Kind.isWord, (Punctuation.spelling_head hp).2.1]

theorem IsLexeme.text_of_mark {p : Punctuation} {text : List Char} (h : IsLexeme (.mark p) text) :
    text = p.spelling.toList := by
  cases h with
  | mark _ => rfl

section Touch

/-! ### Lexemes that touch -/

variable {w v : Written} {later : List Written}

theorem extends_word_iff (hk : w.kind.isWord = true) :
    Extends w.kind w.text (v.text ++ layoutAfter v later) ↔ Clash w.kind v.kind := by
  obtain ⟨c, s, hv⟩ := List.exists_cons_of_ne_nil v.isLexeme.text_ne_nil
  have hext : Extends w.kind w.text (v.text ++ layoutAfter v later) ↔ isWordPart c = true := by
    rw [hv]
    generalize w.kind = k at hk
    cases k <;> simp_all [Kind.isWord, Extends]
  rw [hext, v.isWordPart_head_iff hv]
  constructor
  · rintro (h | h)
    · exact .wordWord hk h
    · exact h ▸ .wordNumber hk
  · intro h
    generalize w.kind = k at h hk
    generalize v.kind = l at h
    cases h with
    | wordWord _ second => exact .inl second
    | wordNumber _ => exact .inr rfl
    | numberNumber => exact .inr rfl
    | equals _ _ => exact absurd hk (by simp [Kind.isWord])
    | slashes => exact absurd hk (by simp [Kind.isWord])

/-- A point and a digit are written after a number exactly if a point and a number are, that
touch. -/
theorem exists_point_digit_iff :
    (∃ d s, v.text ++ layoutAfter v later = '.' :: d :: s ∧ d.isDigit = true) ↔
      v.kind = .mark .dot ∧ v.gap = [] ∧ ∃ u later', later = u :: later' ∧ u.kind = .number := by
  constructor
  · rintro ⟨d, s, h, hd⟩
    obtain ⟨c, r, hv⟩ := List.exists_cons_of_ne_nil v.isLexeme.text_ne_nil
    rw [hv, List.cons_append, List.cons.injEq] at h
    obtain ⟨rfl, h⟩ := h
    have hdot : v.kind = .mark .dot ∧ r = [] := by
      rcases v.cases_head hv with ⟨-, hc⟩ | ⟨-, hc⟩ | ⟨-, hc⟩ | ⟨p, hk, hp⟩
      · exact absurd hc (by decide)
      · exact absurd hc (by decide)
      · exact absurd hc (by decide)
      · cases p <;> simp_all [Punctuation.spelling]
    obtain ⟨hk, rfl⟩ := hdot
    rw [List.nil_append] at h
    cases later with
    | nil => exact absurd h (by simp [layoutAfter])
    | cons u later =>
      rw [layoutAfter] at h
      have hgap : v.gap = [] := by
        rcases v.isGap.eq_nil_or with hnil | ⟨c, g, hg, hc⟩
        · exact hnil
        · rw [hg, List.cons_append, List.cons_append, List.cons.injEq] at h
          obtain ⟨rfl, -⟩ := h
          exact absurd (isWordPart_of_isDigit hd) (by simp [not_isWordPart_of_isSpace hc])
      obtain ⟨e, t, hu⟩ := List.exists_cons_of_ne_nil u.isLexeme.text_ne_nil
      rw [hgap, hu, List.nil_append, List.cons_append, List.cons.injEq] at h
      obtain ⟨rfl, -⟩ := h
      exact ⟨hk, hgap, u, later, rfl, (u.isDigit_head_iff hu).1 hd⟩
  · rintro ⟨hk, hgap, u, later, rfl, hu⟩
    obtain ⟨d, t, hut⟩ := List.exists_cons_of_ne_nil u.isLexeme.text_ne_nil
    have hv : v.text = ['.'] := (hk ▸ v.isLexeme : IsLexeme (.mark .dot) v.text).text_of_mark
    refine ⟨d, t ++ layoutAfter u later, ?_, (u.isDigit_head_iff hut).2 hu⟩
    rw [hv, layoutAfter, hgap, hut]
    rfl

theorem extends_number_iff (hk : w.kind = .number) :
    Extends w.kind w.text (v.text ++ layoutAfter v later) ↔
      Clash w.kind v.kind ∨
        ('.' ∉ w.text ∧ v.kind = .mark .dot ∧ v.gap = [] ∧
          ∃ u later', later = u :: later' ∧ u.kind = .number) := by
  obtain ⟨c, s, hv⟩ := List.exists_cons_of_ne_nil v.isLexeme.text_ne_nil
  have hclash : Clash .number v.kind ↔ v.kind = .number := by
    constructor
    · intro h
      generalize v.kind = l at h
      cases h with
      | wordWord first _ => exact absurd first (by decide)
      | wordNumber first => exact absurd first (by decide)
      | numberNumber => rfl
    · intro h
      exact h ▸ .numberNumber
  have hdigit : (∃ d ∈ (v.text ++ layoutAfter v later).head?, d.isDigit = true) ↔
      v.kind = .number := by
    rw [← v.isDigit_head_iff hv, hv]
    simp
  rw [hk, hclash, ← exists_point_digit_iff, ← hdigit]
  rfl

theorem extends_mark_iff {p : Punctuation} (hk : w.kind = .mark p) :
    Extends w.kind w.text (v.text ++ layoutAfter v later) ↔ Clash w.kind v.kind := by
  obtain ⟨c, s, hv⟩ := List.exists_cons_of_ne_nil v.isLexeme.text_ne_nil
  have hext : Extends (.mark p) w.text (v.text ++ layoutAfter v later) ↔ p.extension? = some c := by
    rw [hv]
    simp [Extends]
  rw [hk, hext]
  constructor
  · intro h
    have hpart : ¬ isWordPart c = true ∧ c ≠ '"' := by
      cases p <;> cases h <;> decide
    rcases v.cases_head hv with ⟨-, hc⟩ | ⟨-, hc⟩ | ⟨-, hc⟩ | ⟨q, hq, hspelling⟩
    · exact absurd hc hpart.2
    · exact absurd (isWordPart_of_isDigit hc) hpart.1
    · exact absurd (isWordPart_of_isWordStart hc) hpart.1
    · have hequals : c = '=' → q ∈ [.equal, .equalEqual] := by
        rintro rfl
        cases q <;> simp_all [Punctuation.spelling]
      have hslash : c = '/' → q = .slash := by
        rintro rfl
        cases q <;> simp_all [Punctuation.spelling]
      rw [hq]
      cases p <;> cases h
      · exact hslash rfl ▸ .slashes
      all_goals exact .equals (by decide) (hequals rfl)
  · intro h
    have hlex := v.isLexeme
    generalize v.kind = l at h hlex
    cases h with
    | wordWord first _ => exact absurd first (by simp [Kind.isWord])
    | wordNumber first => exact absurd first (by simp [Kind.isWord])
    | @equals _ q hp hq =>
      obtain rfl : '=' = c := by
        rw [hlex.text_of_mark] at hv
        rcases List.mem_pair.1 hq with rfl | rfl
        · exact (List.cons.inj hv).1
        · exact (List.cons.inj hv).1
      simp only [List.mem_cons, List.not_mem_nil, or_false] at hp
      rcases hp with rfl | rfl | rfl | rfl <;> rfl
    | slashes =>
      rw [hlex.text_of_mark] at hv
      obtain rfl : '/' = c := (List.cons.inj hv).1
      rfl

end Touch

/-- What follows a lexeme in a layout extends it exactly if they clash. -/
theorem extends_layoutAfter_iff (w : Written) (ws : List Written) :
    Extends w.kind w.text (layoutAfter w ws) ↔ ClashesAt w ws := by
  cases ws with
  | nil =>
    have hext : ¬ Extends w.kind w.text [] := by
      intro h
      obtain ⟨more, hne, hmore, -⟩ := h.exists_matches w.isLexeme
      exact hne (List.prefix_nil.1 hmore)
    exact ⟨fun h => absurd h hext, fun ⟨v, later, h, _⟩ => absurd h (by simp)⟩
  | cons v later =>
    rw [clashesAt_cons, layoutAfter]
    -- only lexemes that touch can clash; then the class of the first decides what it looks ahead to
    rcases w.isGap.eq_nil_or with hgap | ⟨c, g, hgap, hc⟩
    · obtain ⟨c, s, hw⟩ := List.exists_cons_of_ne_nil w.isLexeme.text_ne_nil
      rw [hgap, List.nil_append]
      rcases w.cases_head hw with ⟨hk, -⟩ | ⟨hk, -⟩ | ⟨hk, -⟩ | ⟨p, hk, -⟩
      · have hnot : ¬ Clash .string v.kind := by
          intro h
          generalize v.kind = l at h
          cases h with
          | wordWord first _ => exact absurd first (by decide)
          | wordNumber first => exact absurd first (by decide)
        simp [hk, Extends, hnot]
      · rw [extends_number_iff hk]
        simp [hk]
      · rw [extends_word_iff hk]
        have hnumber : w.kind ≠ .number := by
          intro hnumber
          rw [hnumber] at hk
          exact absurd hk (by decide)
        simp [hnumber]
      · rw [extends_mark_iff hk]
        simp [hk]
    · rw [hgap]
      simp only [reduceCtorEq, false_and, iff_false]
      exact not_extends_of_isSpace hc

/-! ## Scanning a layout -/

/-- The tokens of written lexemes, the first of which begins at `p`. -/
def tokensFrom (p : Position) : List Written → List Token
  | [] => []
  | w :: ws => tokenAt p w.kind w.text :: tokensFrom ((p.advance w.text).advance w.gap) ws

/-- Where nothing clashes, the events of a layout are its tokens. -/
theorem eventsFrom_layout {ws : List Written} (h : ¬ HasClash ws) (p : Position) :
    eventsFrom p (pieces (layout ws)) = (tokensFrom p ws).map Event.token := by
  induction ws generalizing p with
  | nil => rw [layout, pieces_nil]; rfl
  | cons w ws ih =>
    -- nothing extends the first lexeme, so it is the first piece; what follows is a layout again
    have hhead : ¬ Extends w.kind w.text (layoutAfter w ws) := by
      rw [extends_layoutAfter_iff]
      exact fun hclash => h (hasClash_iff.2 ⟨[], w, ws, rfl, hclash⟩)
    have htail : ¬ HasClash ws := by
      rw [hasClash_iff]
      rintro ⟨earlier, v, later, rfl, hclash⟩
      exact h (hasClash_iff.2 ⟨w :: earlier, v, later, rfl, hclash⟩)
    have hafter : eventsFrom (p.advance w.text) (pieces (layoutAfter w ws))
        = eventsFrom ((p.advance w.text).advance w.gap) (pieces (layout ws)) := by
      cases ws with
      | nil => rw [layoutAfter, layout, pieces_nil]; rfl
      | cons v later =>
        obtain ⟨blanks, hgap, hpieces⟩ :=
          pieces_filler_append w.isGap.isFiller (layout (v :: later))
        rw [layoutAfter, List.append_assoc, ← layout, hpieces, eventsFrom_blanks_append, hgap]
    rw [layout, pieces_lexeme_append w.isLexeme hhead, eventsFrom_cons, tokensFrom, List.map_cons,
      ← ih htail]
    exact congrArg (_ :: ·) hafter

/-- What of a token is compared with what was written. -/
def Token.written (t : Token) : Kind × String × Span := (t.kind, t.lexeme, t.span)

theorem map_written_tokensFrom (p : Position) (ws : List Written) :
    (tokensFrom p ws).map Token.written = writtenFrom p.offset ws := by
  induction ws generalizing p with
  | nil => rfl
  | cons w ws ih =>
    rw [tokensFrom, List.map_cons, ih, writtenFrom]
    rfl

/-- Some written lexeme stands where the text before it ends. -/
theorem exists_layout_eq (n : Nat) (earlier later : List Written) (w : Written) :
    ∃ before, layout (earlier ++ w :: later) = before ++ w.text ++ layoutAfter w later ∧
      (w.kind, String.ofList w.text, ⟨n + utf8Length before, n + utf8Length before
        + utf8Length w.text⟩) ∈ writtenFrom n (earlier ++ w :: later) := by
  induction earlier generalizing n with
  | nil => exact ⟨[], rfl, by simp [writtenFrom]⟩
  | cons v earlier ih =>
    obtain ⟨before, hlayout, hmem⟩ := ih (n + utf8Length v.text + utf8Length v.gap)
    refine ⟨v.text ++ v.gap ++ before, ?_, ?_⟩
    · have hafter : layoutAfter v (earlier ++ w :: later)
          = v.gap ++ layout (earlier ++ w :: later) := by
        cases earlier <;> simp [layoutAfter, layout]
      rw [List.cons_append, layout, hafter, hlayout]
      simp
    · rw [List.cons_append, writtenFrom]
      refine List.mem_cons_of_mem _ ?_
      simpa [Nat.add_assoc] using hmem

/-- A written lexeme that is found again, where it was written, does not clash there. -/
theorem not_clashesAt_of_mem_tokens {before : List Char} {w : Written} {later : List Written}
    {t : Token} (ht : t ∈ (scanFrom .start (before ++ w.text ++ layoutAfter w later)).tokens)
    (hwritten : t.written = (w.kind, String.ofList w.text,
      ⟨utf8Length before, utf8Length before + utf8Length w.text⟩)) :
    ¬ ClashesAt w later := by
  obtain ⟨hkind, htext, hspan⟩ : t.kind = w.kind ∧ t.lexeme = String.ofList w.text ∧
      t.span = ⟨utf8Length before, utf8Length before + utf8Length w.text⟩ := by
    simpa [Token.written] using hwritten
  -- the token is a longest match where `w` was written, so nothing there extends `w`
  rcases exists_of_mem_tokens ht with rfl | ⟨kind, before', text, after, hs, hlex, hlongest, rfl⟩
  · exact absurd (hkind ▸ w.isLexeme) (by intro h; cases h)
  · obtain rfl : text = w.text := by
      rw [← String.toList_ofList (l := text), ← String.toList_ofList (l := w.text)]
      exact congrArg String.toList htext
    obtain rfl : kind = w.kind := hkind
    have hlen : utf8Length before' = utf8Length before := by
      simpa [tokenAt, Position.advance, Position.start] using congrArg Span.start hspan
    rw [List.append_assoc, List.append_assoc] at hs
    obtain rfl : before = before' := eq_of_utf8Length_eq hs hlen.symm
    obtain rfl : layoutAfter w later = after :=
      List.append_cancel_left (List.append_cancel_left hs)
    rw [← extends_layoutAfter_iff]
    exact (isLongestMatch_append_iff hlex).1 hlongest

/-- Where nothing clashes, no error is found, and the tokens are those written and the last one. -/
theorem scanFrom_layout {ws : List Written} (h : ¬ HasClash ws) :
    (scanFrom .start (layout ws)).errors = [] ∧
      (scanFrom .start (layout ws)).tokens
        = tokensFrom .start ws ++ [eofAt (Position.start.advance (layout ws))] := by
  have hevents : (scanFrom .start (layout ws)).events = (tokensFrom .start ws).map Event.token :=
    eventsFrom_layout h .start
  have hall : (tokensFrom .start ws).filterMap (Event.token? ∘ Event.token)
      = tokensFrom .start ws := List.filterMap_some
  refine ⟨?_, ?_⟩
  · rw [Scan.errors, hevents, List.filterMap_map]
    exact List.filterMap_eq_nil_iff.2 fun _ _ => rfl
  · rw [Scan.tokens, hevents, List.filterMap_map, hall]
    rfl

/-- **Written lexemes are found again exactly if no two or three of them clash.** A scan of the
layout then reports no error, and its tokens have the kinds, texts and spans that were written; if
some lexemes clash, it finds something else. -/
theorem scan_layout_iff (ws : List Written) :
    ((scan (String.ofList (layout ws))).errors = [] ∧
      (scan (String.ofList (layout ws))).tokens.map Token.written
        = writtenFrom 0 ws ++ [(.eof, "", ⟨utf8Length (layout ws), utf8Length (layout ws)⟩)]) ↔
    ¬ HasClash ws := by
  have hscan : scan (String.ofList (layout ws)) = scanFrom .start (layout ws) := by
    rw [scan, String.toList_ofList]
  have heof : (eofAt (Position.start.advance (layout ws))).written
      = (.eof, "", ⟨utf8Length (layout ws), utf8Length (layout ws)⟩) := by
    simp [eofAt, tokenAt, Token.written, Position.advance, Position.start]
  rw [hscan]
  constructor
  · rintro ⟨-, htokens⟩ hhas
    obtain ⟨earlier, w, later, rfl, hclash⟩ := hasClash_iff.1 hhas
    obtain ⟨before, hlayout, hmem⟩ := exists_layout_eq 0 earlier later w
    rw [Nat.zero_add] at hmem
    have hfound := htokens ▸ List.mem_append_left [_] hmem
    obtain ⟨t, ht, hwritten⟩ := List.mem_map.1 hfound
    exact not_clashesAt_of_mem_tokens (hlayout ▸ ht) hwritten hclash
  · intro hclash
    obtain ⟨herrors, htokens⟩ := scanFrom_layout hclash
    refine ⟨herrors, ?_⟩
    rw [htokens, List.map_append, map_written_tokensFrom]
    exact congrArg (_ ++ [·]) heof

end Lox
