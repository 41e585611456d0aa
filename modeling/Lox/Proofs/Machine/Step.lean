import Lox.Proofs.Machine.Invariant

/-!
# One step of a machine

Phase by phase: a step from a machine that the invariant holds of meets no fault, keeps the
invariant and moves (`Inv.goesOn`).
-/

set_option autoImplicit false

namespace Lox

/-- A number, as it is written, has a value. -/
theorem numeral?_eq_some {text : List Char} (h : IsLexeme .number text) :
    ∃ value, numeral? text = some value ∧ literalOf .number text = .number value := by
  have hwhole : ∀ {whole : List Char}, IsDigits whole →
      whole.takeWhile Char.isDigit = whole ∧ whole.dropWhile Char.isDigit = [] := fun hw =>
    ⟨List.takeWhile_eq_self_iff.2 hw.2, List.dropWhile_eq_nil_iff.2 hw.2⟩
  cases h with
  | whole digits =>
    obtain ⟨htake, hdrop⟩ := hwhole digits
    have hempty : text.isEmpty = false := by simpa using digits.1
    refine ⟨(Decimal.ofDigits text []).toBinary64, ?_, ?_⟩
    · rw [numeral?, htake, hdrop]
      exact if_neg (by simp [hempty])
    · rw [literalOf, htake, hdrop]
      rfl
  | @fractional whole fraction wholeDigits fractionDigits =>
    have htake : (whole ++ '.' :: fraction).takeWhile Char.isDigit = whole := by
      rw [List.takeWhile_append_of_pos wholeDigits.2, List.takeWhile_cons_of_neg (by decide),
        List.append_nil]
    have hdrop : (whole ++ '.' :: fraction).dropWhile Char.isDigit = '.' :: fraction := by
      rw [List.dropWhile_append_of_pos wholeDigits.2, List.dropWhile_cons_of_neg (by decide)]
    have hparts : '.' = '.' ∧ !whole.isEmpty ∧ !fraction.isEmpty ∧ fraction.all Char.isDigit :=
      ⟨rfl, by simpa using wholeDigits.1, by simpa using fractionDigits.1,
        by simpa using fractionDigits.2⟩
    refine ⟨(Decimal.ofDigits whole fraction).toBinary64, ?_, ?_⟩
    · rw [numeral?, htake, hdrop]
      exact if_pos hparts
    · rw [literalOf, htake, hdrop]
      rfl

/-- The end of the source passes for a character of no class. -/
theorem next_iff {p : Char → Bool} (hp : p '\x00' = false) {rest : List Char} :
    p (rest.head?.getD '\x00') = true ↔ ∃ c s, rest = c :: s ∧ p c = true := by
  cases rest with
  | nil => simp [hp]
  | cons c s =>
    refine ⟨fun h => ⟨c, s, rfl, h⟩, fun ⟨d, t, hd, h⟩ => ?_⟩
    rwa [hd]

namespace Machine

variable {ρ : Type} [Reporter ρ] {source before text rest : List Char} {r : ρ} {es : List Event}
  {m m' : Machine ρ} {phase : Phase}

omit [Reporter ρ] in
/-- One line more is counted inside the source. -/
theorem newLine_eq {s : List Char} (hline : m.line = (Position.start.advance s).line)
    (hlt : utf8Length s < utf8Length source) (short : IsShort source) :
    m.newLine = .ok { m with line := m.line + 1 } := by
  have hle := line_advance_le s
  unfold IsShort at short
  rw [newLine, addWord_eq_ok (by omega)]
  rfl

/-! ## Between lexemes -/

/-- At the end of the source what is found is its scan. -/
theorem Account.scan_eq (h : Account source r before [] [] es m) :
    source = before ∧ (scanFrom .start source).events = es := by
  have hsource : source = before := by
    rw [h.source_eq]
    simp
  refine ⟨hsource, ?_⟩
  have hevents := h.events
  rw [List.append_nil, pieces_nil, eventsFrom_nil, List.append_nil] at hevents
  exact hevents

theorem Between.finish (h : Between source r before [] es m) (short : IsShort source) :
    GoesOn source r m (m.finish source) := by
  obtain ⟨rfl, hscan⟩ := h.account.scan_eq
  obtain ⟨htokens, herrors, hreporter, hlog⟩ := h.account.kept
  have hcounts := h.account.counts_eq
  have hfew := h.account.few
  have heof : (⟨.eof, "", .absent, m.line, ⟨utf8Length source, utf8Length source⟩⟩ : Token)
      = eofAt (scanFrom .start source).stop := by
    rw [h.line]
    simp [eofAt, tokenAt, literalOf, scanFrom, Position.advance, Position.start]
  have hall : m.tokens ++ [eofAt (scanFrom .start source).stop]
      = (scanFrom .start source).tokens := by
    rw [Scan.tokens, hscan, htokens]
  have hcount : m.errorCount = (scanFrom .start source).errors.length := by
    rw [Scan.errors, hscan, herrors]
  unfold Machine.finish
  rw [heof, push_eq (h.account.tokens_lt short).1, hall]
  refine ⟨_, rfl, .stopped ⟨rfl, ?_, h.start, h.line, ?_, ?_⟩, .stays rfl ?_, fun _ => h.phase_eq⟩
  · exact h.account.current.trans (by rw [List.append_nil])
  · show m.errorCount ≤ utf8Length source
    omega
  · refine findings_eq_iff.2 ⟨rfl, hcount, hreporter.trans (by rw [hscan]), ?_⟩
    show m.log ++ _ = (scanFrom .start source).log
    rw [Scan.log, hscan, hlog, Scan.summary, hcount, h.line]
    rfl
  · rw [h.phase_eq]
    exact Nat.zero_lt_one

theorem Between.goesOn (h : Between source r before rest es m) (short : IsShort source) :
    GoesOn source r m (m.step source) := by
  have hstep : m.step source
      = if m.isAtEnd source then m.finish source else return m.startLexeme := by
    rw [step, h.phase_eq]
  rw [hstep, h.account.isAtEnd_eq]
  cases rest with
  | nil =>
    exact h.finish short
  | cons c rest =>
    rw [if_neg (by simp)]
    have haccount : Account source r before [] (c :: rest) es m.startLexeme :=
      h.account.congr rfl rfl
    have hstart : m.startLexeme.start = utf8Length before :=
      h.account.current.trans (by rw [List.append_nil])
    have hinside : Inside source r .fresh before [] (c :: rest) es m.startLexeme :=
      ⟨rfl, haccount, hstart, h.line, h.line, rfl, List.cons_ne_nil c rest⟩
    refine ⟨_, rfl, .inside hinside, .stays rfl ?_, fun _ => h.phase_eq⟩
    rw [h.phase_eq]
    exact Nat.zero_lt_one

namespace Inside

/-! ## Starting a lexeme -/

theorem goesOn_fresh (h : Inside source r .fresh before text rest es m) (short : IsShort source) :
    GoesOn source r m (m.step source) := by
  obtain ⟨rfl, hne⟩ := h.pending
  obtain ⟨c, rest, rfl⟩ := List.exists_cons_of_ne_nil hne
  rw [step, h.phase_eq]
  dsimp only
  rw [h.account.advance_eq short]
  exact h.pass rfl rfl (by simp)

theorem goesOn_ready {p : Punctuation} (h : Inside source r (.ready p) before text rest es m)
    (short : IsShort source) : GoesOn source r m (m.step source) := by
  obtain ⟨rfl, hext⟩ := h.pending
  rw [step, h.phase_eq]
  exact h.addLiteral short (.mark p) hext rfl rfl (Nat.lt_succ_self 1)

theorem goesOn_comment (h : Inside source r .comment before text rest es m)
    (short : IsShort source) : GoesOn source r m (m.step source) := by
  obtain ⟨u, rfl, hline⟩ := h.pending
  rw [step, h.phase_eq]
  dsimp only
  rw [h.account.peek_eq, ok_bind, h.account.isAtEnd_eq]
  by_cases hgo : ∃ c s, rest = c :: s ∧ c ≠ '\n'
  · obtain ⟨c, s, rfl, hc⟩ := hgo
    rw [if_pos (by simpa using hc), h.account.goOver_eq short]
    refine h.pass ⟨u ++ [c], rfl, ?_⟩ ?_ (by simp)
    · simpa [eq_comm] using ⟨hline, hc⟩
    · simp [counted, hc]
  · -- the line feed, or the end of the source, is left for the main loop
    have hend : ∀ c ∈ rest.head?, c = '\n' := by
      intro c hc
      obtain ⟨s, rfl⟩ := List.head?_eq_some_iff.1 hc
      by_contra hne
      exact hgo ⟨c, s, rfl, hne⟩
    have hstop : ¬ (rest.head?.getD '\x00' ≠ '\n' ∧ rest.isEmpty = false) := by
      rintro ⟨hne, hempty⟩
      cases rest with
      | nil => exact absurd hempty (by decide)
      | cons c s => exact hne (hend c rfl)
    rw [if_neg hstop]
    refine h.close (x := .blank ('/' :: '/' :: u)) rfl (pieces_comment_append hline hend)
      (List.cons_ne_nil _ _) rfl rfl rfl h.line ?_ (Nat.lt_succ_self 1)
    exact h.account.found.trans (by simp [Piece.eventAt?])

/-! ## The choice by the first character -/

section First

variable {c : Char}

theorem ready (h : Inside source r (.first c) before [c] rest es m) {p : Punctuation}
    (hp : p.spelling.toList = [c]) (hext : ¬ Extends (.mark p) [c] rest) :
    GoesOn source r m (.ok (m.enter (.ready p))) := by
  have hline : '\n' ∉ [c] := hp ▸ (IsLexeme.mark p).notMem_of_isSpace (by simp) (by decide)
  exact h.enter ⟨hp.symm, hext⟩ (List.count_eq_zero.2 hline) (by simp [Phase.rank])

/-- The second character of a mark is gone over. -/
theorem readyOfTwo {d : Char} (h : Inside source r (.first c) before [c] (d :: rest) es m)
    {p : Punctuation} (hp : p.spelling.toList = [c, d]) (hext : p.extension? = none) :
    GoesOn source r m
      (.ok { m with current := m.current + d.utf8Size, phase := .ready p }) := by
  have hline : '\n' ∉ [c, d] := hp ▸ (IsLexeme.mark p).notMem_of_isSpace (by simp) (by decide)
  refine h.pass ⟨hp.symm, ?_⟩ (List.count_eq_zero.2 hline) (by simp)
  rintro ⟨e, he, -⟩
  exact absurd he (by simp [hext])

theorem goesOn_double (h : Inside source r (.first c) before [c] rest es m)
    (short : IsShort source) {long brief : Punctuation}
    (hmarks : doubleMark? c = some (long, brief)) :
    GoesOn source r m (do
      let (found, m) ← m.matchChar source '='
      return m.enter (.ready (if found then long else brief))) := by
  obtain ⟨⟨hlong, hnone⟩, hbrief, hsome⟩ := doubleMark?_eq_some hmarks
  by_cases hnext : rest.head? = some '='
  · obtain ⟨s, rfl⟩ := List.head?_eq_some_iff.1 hnext
    rw [h.account.matchChar_of_eq short, ok_bind]
    exact h.readyOfTwo hlong hnone
  · rw [h.account.matchChar_of_ne hnext, ok_bind]
    refine h.ready hbrief ?_
    rintro ⟨e, he, hhead⟩
    obtain rfl : '=' = e := Option.some.inj (hsome.symm.trans he)
    exact hnext hhead

theorem goesOn_slash (h : Inside source r (.first '/') before ['/'] rest es m)
    (short : IsShort source) :
    GoesOn source r m (do
      let (found, m) ← m.matchChar source '/'
      return m.enter (if found then .comment else .ready .slash)) := by
  by_cases hnext : rest.head? = some '/'
  · obtain ⟨s, rfl⟩ := List.head?_eq_some_iff.1 hnext
    rw [h.account.matchChar_of_eq short, ok_bind]
    exact h.pass ⟨[], rfl, by simp⟩ rfl (by simp)
  · rw [h.account.matchChar_of_ne hnext, ok_bind]
    refine h.ready rfl ?_
    rintro ⟨e, he, hhead⟩
    obtain rfl : '/' = e := Option.some.inj he
    exact hnext hhead

/-- A space is gone over. -/
theorem goesOn_space (h : Inside source r (.first c) before [c] rest es m) (hc : isSpace c = true)
    (hphase : m'.phase = .between) (hcurrent : m'.current = m.current) (hstart : m'.start = m.start)
    (hline : m'.line = (Position.start.advance before).line + [c].count '\n')
    (hfound : m'.findings = m.findings) : GoesOn source r m (.ok m') := by
  refine h.close (x := .blank [c]) rfl (pieces_space_cons hc rest) (List.cons_ne_nil _ _)
    hphase hcurrent hstart hline ?_ (by simp [Phase.rank])
  rw [hfound, h.account.found]
  simp [Piece.eventAt?]

theorem goesOn_lineFeed (h : Inside source r (.first '\n') before ['\n'] rest es m)
    (short : IsShort source) : GoesOn source r m (m.enter .between).newLine := by
  have hline : m.line = (Position.start.advance before).line := h.line
  have hlt : utf8Length before < utf8Length source := by
    rw [h.account.source_eq, utf8Length_append, utf8Length_append]
    have hpos := utf8Length_pos (List.cons_ne_nil '\n' [])
    omega
  have hnew : (m.enter .between).newLine = .ok { m.enter .between with line := m.line + 1 } :=
    newLine_eq hline hlt short
  rw [hnew]
  exact h.goesOn_space (by decide) rfl rfl rfl (congrArg (· + 1) hline) rfl

/-- A character that nothing begins with is reported. -/
theorem goesOn_stray (h : Inside source r (.first c) before [c] rest es m) (short : IsShort source)
    (hquote : c ≠ '"') (hpart : isWordPart c = false) (hspace : isSpace c = false)
    (hslash : c ≠ '/') (hmark : ∀ s, Punctuation.ofSpelling? (c :: s) = none) :
    GoesOn source r m ((m.enter .between).fail m.line "Unexpected character.") := by
  have hnone : Piece.mark? c rest = none := by
    rw [Piece.mark?, hmark, hmark]
    rfl
  have hfirst : IsFirst (c :: rest) (.stray c) :=
    isFirst_stray hquote hpart hspace (fun hcomment => hslash hcomment.1) hnone
  have hpieces : pieces ([c] ++ rest) = .stray c :: pieces rest :=
    pieces_of_isFirst (x := .stray c) hfirst
  have hcount : ([] : List Char).count '\n' = [c].count '\n' := by
    have hne : c ≠ '\n' := by
      rintro rfl
      exact absurd hspace (by decide)
    simp [hne]
  exact h.fail short rfl hpieces (List.cons_ne_nil _ _) rfl hcount
    h.line (by simp [Phase.rank])

theorem goesOn_first (h : Inside source r (.first c) before text rest es m)
    (short : IsShort source) : GoesOn source r m (m.step source) := by
  obtain rfl : text = [c] := h.pending
  rw [step, h.phase_eq]
  dsimp only
  unfold choose
  split
  next p _ hsingle =>
    obtain ⟨hp, hnone⟩ := singleMark?_eq_some hsingle
    refine h.ready hp ?_
    rintro ⟨e, he, -⟩
    exact absurd he (by simp [hnone])
  next hdouble => exact h.goesOn_double short hdouble
  next hsingle hdouble =>
    -- neither table has the character: the slash looks ahead, all others are told by their class
    by_cases hslash : c = '/'
    · subst hslash
      exact h.goesOn_slash short
    have hmark := ofSpelling?_eq_none_of_tables hsingle hdouble hslash
    rw [if_neg hslash]
    by_cases hblank : c = ' ' ∨ c = '\r' ∨ c = '\t'
    · rw [if_pos hblank]
      have hspace : isSpace c = true := by
        rcases hblank with rfl | rfl | rfl <;> rfl
      have hline : m.line = (Position.start.advance before).line + [c].count '\n' := by
        rcases hblank with rfl | rfl | rfl <;> exact h.line
      exact h.goesOn_space hspace rfl rfl rfl hline rfl
    rw [if_neg hblank]
    by_cases hfeed : c = '\n'
    · subst hfeed
      exact h.goesOn_lineFeed short
    rw [if_neg hfeed]
    by_cases hquote : c = '"'
    · subst hquote
      exact h.enter ⟨[], rfl, by simp⟩ rfl (Nat.lt_succ_self 3)
    rw [if_neg hquote]
    have hcount : [c].count '\n' = ([] : List Char).count '\n' := by simp [hfeed]
    by_cases hdigit : c.isDigit = true
    · rw [if_pos hdigit]
      exact h.enter ⟨List.cons_ne_nil _ _, by simpa using hdigit⟩ hcount (by simp [Phase.rank])
    rw [if_neg hdigit]
    by_cases hstart : isWordStart c = true
    · rw [if_pos hstart]
      exact h.enter ⟨c, [], rfl, hstart, by simp⟩ hcount (by simp [Phase.rank])
    rw [if_neg hstart]
    have hpart : isWordPart c = false :=
      not_isWordPart (by simpa using hstart) (by simpa using hdigit)
    have hspace : isSpace c = false := by
      simp only [not_or] at hblank
      simp only [isSpace, Bool.or_eq_false_iff, beq_eq_false_iff_ne]
      exact ⟨⟨⟨hblank.1, hblank.2.1⟩, hblank.2.2⟩, hfeed⟩
    exact h.goesOn_stray short hquote hpart hspace hslash hmark

end First

/-! ## Strings -/

/-- The line of a character inside a string is counted. -/
theorem countLine {u : List Char} {c : Char}
    (h : Inside source r .string before ('"' :: u) (c :: rest) es m) (short : IsShort source)
    (hu : '"' ∉ u) (hc : c ≠ '"') :
    GoesOn source r m
      (if c = '\n' then (m.enter .inString).newLine else .ok (m.enter .inString)) := by
  have hpending : Pending .inString ('"' :: u) (c :: rest) := ⟨⟨u, rfl, hu⟩, c, rest, rfl, hc⟩
  by_cases hfeed : c = '\n'
  · subst hfeed
    have hline : m.line = (Position.start.advance (before ++ '"' :: u)).line := by
      rw [Position.advance_append]
      exact h.line
    have hlt : utf8Length (before ++ '"' :: u) < utf8Length source := by
      rw [h.account.length_source, h.account.current]
      exact Nat.lt_add_of_pos_right (utf8Length_pos (List.cons_ne_nil _ _))
    have hnew : (m.enter .inString).newLine
        = .ok { m.enter .inString with line := m.line + 1 } := newLine_eq hline hlt short
    have hinside : Inside source r .inString before ('"' :: u) ('\n' :: rest) es
        { m.enter .inString with line := m.line + 1 } := by
      refine ⟨rfl, h.account.congr rfl rfl, h.start, h.startLine, ?_, hpending⟩
      show m.line + 1 = _
      rw [h.line]
      simp [counted, Nat.add_assoc]
    rw [if_pos rfl]
    refine ⟨_, hnew, .inside hinside, .stays rfl ?_,
      fun hstopped => absurd hstopped hinside.phase_ne_stopped⟩
    rw [h.phase_eq]
    exact Nat.zero_lt_succ 2
  · rw [if_neg hfeed]
    exact h.enter hpending (by simp [counted, hfeed]) (Nat.zero_lt_succ 2)

theorem goesOn_string (h : Inside source r .string before text rest es m) (short : IsShort source) :
    GoesOn source r m (m.step source) := by
  obtain ⟨u, rfl, hu⟩ := h.pending
  rw [step, h.phase_eq]
  dsimp only
  rw [testString, h.account.peek_eq, ok_bind, h.account.isAtEnd_eq]
  cases rest with
  | nil =>
    have hopen : Piece.string u = .openString ('"' :: u) := if_neg hu
    have hfirst := hopen ▸ isFirst_string u
    have hpieces : pieces ('"' :: u ++ []) = .openString ('"' :: u) :: pieces [] :=
      pieces_of_isFirst (x := .openString ('"' :: u)) (by rwa [Piece.text, List.append_nil])
    rw [if_neg (by simp)]
    exact h.fail short rfl hpieces (List.cons_ne_nil _ _) rfl rfl h.startLine (by decide)
  | cons c rest =>
    rw [List.head?_cons, Option.getD_some, List.isEmpty_cons]
    by_cases hc : c = '"'
    · subst hc
      rw [if_neg (by simp), if_neg (by simp), h.account.goOver_eq short]
      exact h.pass ⟨u, rfl, hu⟩ (by simp [counted]) (by simp)
    · rw [if_pos ⟨hc, rfl⟩]
      exact h.countLine short hu hc

theorem goesOn_inString (h : Inside source r .inString before text rest es m)
    (short : IsShort source) : GoesOn source r m (m.step source) := by
  obtain ⟨⟨u, rfl, hu⟩, c, rest, rfl, hc⟩ := h.pending
  rw [step, h.phase_eq]
  dsimp only
  rw [h.account.goOver_eq short]
  refine h.pass ⟨u ++ [c], rfl, ?_⟩ rfl (by simp)
  simpa [eq_comm] using ⟨hu, hc⟩

theorem goesOn_quoted (h : Inside source r .quoted before text rest es m) (short : IsShort source) :
    GoesOn source r m (m.step source) := by
  obtain ⟨u, rfl, hu⟩ := h.pending
  have hcurrent : m.current = utf8Length before + 1 + utf8Length u + 1 := by
    rw [h.account.current]
    simp [Nat.add_assoc]
    rfl
  have hlength := h.account.length_source
  have hstart := h.start
  -- a quote is one byte, so next to each of them a character begins
  have hvalue : slice source (m.start + 1) (m.current - 1) = .ok u := by
    refine slice_eq_ok_iff.2 ⟨before ++ ['"'], '"' :: rest, ?_, ?_, ?_⟩
    · rw [h.account.source_eq]
      simp
    · rw [hstart, utf8Length_append]
      rfl
    · rw [utf8Length_append, utf8Length_append, hcurrent]
      rfl
  have hfirst : m.start + 1 < UInt64.size := by
    unfold IsShort at short
    omega
  rw [step, h.phase_eq]
  dsimp only
  rw [addString, addWord_eq_ok hfirst, ok_bind, subWord_eq_ok (by omega), ok_bind, hvalue, ok_bind]
  exact h.addLiteral short (.string hu) id rfl (by simp [literalOf]) (Nat.lt_succ_self 1)

/-! ## Numbers and words -/

/-- What is gone over is a number. -/
theorem addNumber (h : Inside source r phase before text rest es m) (short : IsShort source)
    (hlex : IsLexeme .number text) (hext : ¬ Extends .number text rest)
    (hcount : (counted phase text rest).count '\n' = text.count '\n') (lower : 1 < phase.rank) :
    GoesOn source r m (m.addNumber source) := by
  obtain ⟨value, hvalue, hliteral⟩ := numeral?_eq_some hlex
  have hslice : slice source m.start m.current = .ok text :=
    slice_eq_ok_iff.2 ⟨before, rest, h.account.source_eq, h.start.symm, h.account.current.symm⟩
  unfold Machine.addNumber
  rw [hslice, ok_bind, hvalue]
  exact h.addLiteral short hlex hext hcount hliteral.symm lower

/-- A digit more is gone over. -/
theorem overDigit {c : Char} {s : List Char}
    (h : Inside source r phase before text (c :: s) es m) (short : IsShort source)
    (hc : c.isDigit = true) (pending : Pending phase (text ++ [c]) s)
    (hcounted : ∀ t u, counted phase t u = t) (notCounting : phase ≠ .inString) :
    GoesOn source r m (m.goOver source phase) := by
  have hne : c ≠ '\n' := by
    rintro rfl
    exact absurd hc (by decide)
  rw [h.account.goOver_eq short]
  exact h.pass pending (by simp [hcounted, hne]) notCounting

theorem goesOn_whole (h : Inside source r .whole before text rest es m) (short : IsShort source) :
    GoesOn source r m (m.step source) := by
  have hdigits : IsDigits text := h.pending
  rw [step, h.phase_eq]
  dsimp only
  rw [h.account.peek_eq, ok_bind]
  by_cases hdigit : (rest.head?.getD '\x00').isDigit = true
  · rw [if_pos hdigit]
    obtain ⟨c, s, rfl, hc⟩ := (next_iff (by decide)).1 hdigit
    exact h.overDigit short hc (hdigits.append hc) (fun _ _ => rfl) (by simp)
  rw [if_neg hdigit]
  -- a point without a digit after it is no part of the number
  have hclose : (¬ ∃ d s, rest = '.' :: d :: s ∧ d.isDigit = true) →
      GoesOn source r m (m.addNumber source) := by
    intro hpoint
    refine h.addNumber short (.whole hdigits) ?_ rfl (Nat.lt_succ_self 1)
    rintro (⟨c, hc, hcdigit⟩ | ⟨-, hfraction⟩)
    · exact hdigit (by rwa [Option.mem_def.1 hc])
    · exact hpoint hfraction
  by_cases hpoint : rest.head?.getD '\x00' = '.'
  · rw [if_pos hpoint, h.account.peekNext_eq, ok_bind]
    obtain ⟨s, rfl⟩ : ∃ s, rest = '.' :: s := by
      cases rest with
      | nil => exact absurd hpoint (by decide)
      | cons c s => exact ⟨s, congrArg (· :: s) hpoint⟩
    by_cases hnext : ((('.' :: s).drop 1).head?.getD '\x00').isDigit = true
    · obtain ⟨d, u, hs, hd⟩ := (next_iff (by decide)).1 hnext
      obtain rfl : s = d :: u := hs
      rw [if_pos hnext, h.account.goOver_eq short]
      exact h.pass ⟨text, [], rfl, hdigits, by simp, fun _ => ⟨d, u, rfl, hd⟩⟩ (by simp [counted])
        (by simp)
    · rw [if_neg hnext]
      refine hclose ?_
      rintro ⟨d, u, hs, hd⟩
      obtain rfl : s = d :: u := (List.cons.inj hs).2
      exact hnext hd
  · rw [if_neg hpoint]
    refine hclose ?_
    rintro ⟨d, u, rfl, -⟩
    exact hpoint rfl

theorem goesOn_fraction (h : Inside source r .fraction before text rest es m)
    (short : IsShort source) : GoesOn source r m (m.step source) := by
  obtain ⟨whole, u, rfl, hwhole, hu, hnext⟩ := h.pending
  rw [step, h.phase_eq]
  dsimp only
  rw [h.account.peek_eq, ok_bind]
  by_cases hdigit : (rest.head?.getD '\x00').isDigit = true
  · rw [if_pos hdigit]
    obtain ⟨c, s, rfl, hc⟩ := (next_iff (by decide)).1 hdigit
    refine h.overDigit short hc ⟨whole, u ++ [c], by simp, hwhole, ?_, by simp⟩
      (fun _ _ => rfl) (by simp)
    intro d hd
    rcases List.mem_append.1 hd with hd | hd
    · exact hu d hd
    · exact List.mem_singleton.1 hd ▸ hc
  · rw [if_neg hdigit]
    -- the point was gone over only because a digit follows it
    have hne : u ≠ [] := fun hnil => hdigit ((next_iff (by decide)).2 (hnext hnil))
    refine h.addNumber short (.fractional hwhole ⟨hne, hu⟩) ?_ rfl (Nat.lt_succ_self 1)
    rintro (⟨c, hc, hcdigit⟩ | ⟨hpoint, -⟩)
    · exact hdigit (by rwa [Option.mem_def.1 hc])
    · exact hpoint (by simp)

theorem goesOn_word (h : Inside source r .word before text rest es m) (short : IsShort source) :
    GoesOn source r m (m.step source) := by
  have hword : IsWord text := h.pending
  rw [step, h.phase_eq]
  dsimp only
  rw [h.account.peek_eq, ok_bind]
  by_cases hpart : isWordPart (rest.head?.getD '\x00') = true
  · rw [if_pos hpart]
    obtain ⟨c, s, rfl, hc⟩ := (next_iff (by decide)).1 hpart
    have hne : c ≠ '\n' := by
      rintro rfl
      exact absurd hc (by decide)
    rw [h.account.goOver_eq short]
    exact h.pass (hword.append hc) (by simp [counted, hne]) (by simp)
  · have hslice : slice source m.start m.current = .ok text :=
      slice_eq_ok_iff.2 ⟨before, rest, h.account.source_eq, h.start.symm, h.account.current.symm⟩
    have hext : ¬ Extends (.ofWord text) text rest := by
      have hstop : ¬ ∃ c ∈ rest.head?, isWordPart c = true := by
        rintro ⟨c, hc, hcpart⟩
        exact hpart (by rwa [Option.mem_def.1 hc])
      unfold Kind.ofWord
      split <;> exact hstop
    have hliteral : Literal.absent = literalOf (.ofWord text) text := by
      unfold Kind.ofWord
      split <;> rfl
    rw [if_neg hpart, addWordToken, hslice, ok_bind]
    exact h.addLiteral short (isLexeme_ofWord hword) hext rfl hliteral (Nat.lt_succ_self 1)

end Inside

/-- A step keeps the invariant, whatever the phase. -/
theorem Inv.goesOn (h : Inv source r m) (short : IsShort source) (running : m.phase ≠ .stopped) :
    GoesOn source r m (m.step source) := by
  cases h with
  | between h => exact h.goesOn short
  | @inside phase _ _ _ _ h =>
    cases phase with
    | fresh => exact h.goesOn_fresh short
    | first c => exact h.goesOn_first short
    | ready p => exact h.goesOn_ready short
    | comment => exact h.goesOn_comment short
    | string => exact h.goesOn_string short
    | inString => exact h.goesOn_inString short
    | quoted => exact h.goesOn_quoted short
    | whole => exact h.goesOn_whole short
    | fraction => exact h.goesOn_fraction short
    | word => exact h.goesOn_word short
    | between => exact h.pending.elim
    | stopped => exact h.pending.elim
  | stopped h => exact absurd h.phase_eq running

end Machine

end Lox
