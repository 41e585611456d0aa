import Lox.Proofs.Machine.Step

/-!
# Every scan is safe

A machine that scans a source short enough for machine words never meets a fault and finishes
(`runs_safely`). At every moment its offsets are in order and at character boundaries, and its line
and its counts are bounded by the bytes gone over; what it has found in the end is the scan of the
source.
-/

set_option autoImplicit false

namespace Lox

namespace Machine

variable {ρ : Type}

/-! ## What is safe -/

/-- A character of the source begins at byte `n`, or the source ends there. -/
def IsBoundary (source : List Char) (n : Nat) : Prop :=
  ∃ s, s <+: source ∧ utf8Length s = n

/-- The offsets, the line and the counts of a machine are in order. -/
structure Sound (source : List Char) (m : Machine ρ) : Prop where
  start_le : m.start ≤ m.current
  current_le : m.current ≤ utf8Length source
  start_boundary : IsBoundary source m.start
  current_boundary : IsBoundary source m.current
  line_le : m.line ≤ 1 + m.current
  errorCount_le : m.errorCount ≤ m.current
  /-- The token that ends every scan would be one more. -/
  counts_le : m.phase ≠ .stopped → m.tokens.length + m.errorCount ≤ m.current

/-- What is meant by the safety of a scan. -/
structure Safe [Reporter ρ] (source : String) (r : ρ) : Prop where
  /-- No sum and no difference leaves the machine words, and every slice is in range, does not end
  before it starts and cuts no character. -/
  noFault : ∀ m, Reachable source.toList r m → ∃ m', m.step source.toList = .ok m'
  sound : ∀ m, Reachable source.toList r m → Sound source.toList m
  /-- From the start of a lexeme on, something has been gone over, however far the machine goes. -/
  lexeme : ∀ m, Reachable source.toList r m → m.phase = .fresh →
    ∀ n m', steps source.toList (n + 1) m = .ok m' → m.current < m'.current
  /-- One turn of the loop over a comment, the digits of a number or a word. -/
  turn : ∀ m m', Reachable source.toList r m → m.phase ≠ .stopped →
    m.step source.toList = .ok m' → m'.phase = m.phase → GoesOver source.toList m m'
  /-- One turn of the loop over a string, in two steps. -/
  stringTurn : ∀ m m', Reachable source.toList r m → m.phase = .string →
    m.step source.toList = .ok m' → m'.phase = .inString →
    ∃ m'', m'.step source.toList = .ok m'' ∧ m''.phase = .string ∧ GoesOver source.toList m m''
  /-- Every loop inside a lexeme ends, and the machine comes back to the main loop. -/
  returns : ∀ m, Reachable source.toList r m → m.phase ≠ .stopped → ∃ n m',
    n ≤ 5 * (utf8Length source.toList - m.current) + 4 ∧ steps source.toList n m = .ok m' ∧
      Reachable source.toList r m' ∧ m'.phase = .between
  /-- The main loop ends. -/
  ends : ∀ m, Reachable source.toList r m → ∃ n m',
    n ≤ 5 * (utf8Length source.toList - m.current) + 4 ∧ steps source.toList n m = .ok m' ∧
      Reachable source.toList r m' ∧ m'.phase = .stopped
  /-- What is found in the end is the scan. -/
  result : ∀ m, Reachable source.toList r m → m.phase = .stopped →
    (m.tokens, m.reporter) = scanInto r source ∧ m.log = (scan source).log
  spans : ∀ m, Reachable source.toList r m → ∀ t ∈ m.tokens,
    t.span.length = .ok (utf8Length t.lexeme.toList)

/-! ## One step -/

section Step

variable {source : List Char} {m m' : Machine ρ}

theorem GoesOver.lt (h : GoesOver source m m') : m.current < m'.current := by
  obtain ⟨s, c, t, -, hm, hm'⟩ := h
  have hpos := utf8Length_pos (List.cons_ne_nil c [])
  rw [hm, hm', utf8Length_append]
  omega

theorem GoesOver.le (h : GoesOver source m m') : m'.current ≤ utf8Length source := by
  obtain ⟨s, c, t, rfl, -, hm'⟩ := h
  rw [hm', utf8Length_append, utf8Length_append, utf8Length_cons, utf8Length_cons, utf8Length_nil]
  omega

theorem Moves.current_le (h : Moves source m m') : m.current ≤ m'.current := by
  cases h with
  | stays current _ => exact Nat.le_of_eq current.symm
  | passes goesOver _ => exact Nat.le_of_lt goesOver.lt

/-- To a phase of no lower rank a machine comes only by going over a character. -/
theorem Moves.goesOver (h : Moves source m m') (hrank : m.phase.rank ≤ m'.phase.rank) :
    GoesOver source m m' := by
  cases h with
  | stays _ lower => exact absurd lower (Nat.not_lt.2 hrank)
  | passes goesOver _ => exact goesOver

/-- How many steps there may be at most before a machine finishes. -/
def measure (source : List Char) (m : Machine ρ) : Nat :=
  5 * (utf8Length source - m.current) + m.phase.rank

theorem measure_le (source : List Char) (m : Machine ρ) :
    measure source m ≤ 5 * (utf8Length source - m.current) + 4 :=
  Nat.add_le_add_left m.phase.rank_le _

theorem Moves.measure_lt (h : Moves source m m') : measure source m' < measure source m := by
  unfold measure
  cases h with
  | stays current lower =>
    rw [current]
    omega
  | passes goesOver _ =>
    have hlt := goesOver.lt
    have hle := goesOver.le
    have hrank := m'.phase.rank_le
    omega

end Step

/-! ## Runs -/

section Runs

variable [Reporter ρ] {source : List Char} {r : ρ} {m m' : Machine ρ}

theorem inv_initial (source : List Char) (r : ρ) : Inv source r (initial r) := by
  have haccount : Account source r [] [] source [] (initial r) :=
    ⟨rfl, rfl, rfl, rfl, Nat.le_refl 0⟩
  exact .between ⟨rfl, haccount, ⟨[], List.prefix_rfl, rfl⟩, rfl⟩

theorem step_of_stopped (h : m.phase = .stopped) : m.step source = .ok m := by
  rw [step, h]
  rfl

/-- A step that can be made keeps the invariant. -/
theorem Inv.of_step (h : Inv source r m) (short : IsShort source)
    (hstep : m.step source = .ok m') : Inv source r m' := by
  by_cases hstopped : m.phase = .stopped
  · obtain rfl := Except.ok.inj (hstep.symm.trans (step_of_stopped hstopped))
    exact h
  · obtain ⟨n, hn, hinv, -⟩ := h.goesOn short hstopped
    obtain rfl := Except.ok.inj (hstep.symm.trans hn)
    exact hinv

theorem Inv.moves_of_step (h : Inv source r m) (short : IsShort source)
    (running : m.phase ≠ .stopped) (hstep : m.step source = .ok m') :
    Moves source m m' ∧ (m'.phase = .stopped → m.phase = .between) := by
  obtain ⟨n, hn, -, hmoves⟩ := h.goesOn short running
  obtain rfl := Except.ok.inj (hstep.symm.trans hn)
  exact hmoves

theorem Inv.exists_step (h : Inv source r m) (short : IsShort source) :
    ∃ m', m.step source = .ok m' := by
  by_cases hstopped : m.phase = .stopped
  · exact ⟨m, step_of_stopped hstopped⟩
  · obtain ⟨m', hm', -⟩ := h.goesOn short hstopped
    exact ⟨m', hm'⟩

theorem inv_of_reachable (h : Reachable source r m) (short : IsShort source) :
    Inv source r m := by
  induction h with
  | initial => exact inv_initial source r
  | step _ hstep ih => exact ih.of_step short hstep

theorem Reachable.of_steps {n : Nat} (h : Reachable source r m)
    (hsteps : steps source n m = .ok m') : Reachable source r m' := by
  induction n generalizing m with
  | zero =>
    obtain rfl : m = m' := Except.ok.inj hsteps
    exact h
  | succ n ih =>
    rw [steps] at hsteps
    cases hstep : m.step source with
    | error fault =>
      rw [hstep] at hsteps
      exact absurd hsteps (by simp [bind, Except.bind])
    | ok k =>
      rw [hstep, ok_bind] at hsteps
      exact ih (h.step hstep) hsteps

/-- However far a machine goes, it does not go back. -/
theorem current_le_of_steps (short : IsShort source) {n : Nat} (h : Inv source r m)
    (hsteps : steps source n m = .ok m') : m.current ≤ m'.current := by
  induction n generalizing m with
  | zero =>
    obtain rfl : m = m' := Except.ok.inj hsteps
    exact Nat.le_refl _
  | succ n ih =>
    obtain ⟨k, hstep⟩ := h.exists_step short
    rw [steps, hstep, ok_bind] at hsteps
    have hle := ih (h.of_step short hstep) hsteps
    by_cases hstopped : m.phase = .stopped
    · obtain rfl := Except.ok.inj (hstep.symm.trans (step_of_stopped hstopped))
      exact hle
    · exact Nat.le_trans (h.moves_of_step short hstopped hstep).1.current_le hle

/-- A machine comes to a goal if it cannot finish, or leave what `P` says, before it is there. -/
theorem exists_steps {P goal : Machine ρ → Prop} (short : IsShort source)
    (hinv : ∀ m, P m → Inv source r m) (hrun : ∀ m, P m → ¬ goal m → m.phase ≠ .stopped)
    (hstep : ∀ m m', P m → ¬ goal m → m.step source = .ok m' → P m') (h : P m) :
    ∃ n m', n ≤ measure source m ∧ steps source n m = .ok m' ∧ goal m' := by
  -- as long as the goal is not met, a step brings the measure down
  induction hk : measure source m using Nat.strong_induction_on generalizing m with
  | _ k ih =>
    by_cases hgoal : goal m
    · exact ⟨0, m, Nat.zero_le _, rfl, hgoal⟩
    · have hm := hinv m h
      have hrunning := hrun m h hgoal
      obtain ⟨m', hm'⟩ := hm.exists_step short
      have hlt := (hm.moves_of_step short hrunning hm').1.measure_lt
      obtain ⟨n, l, hn, hl, hgoal'⟩ := ih _ (hk ▸ hlt) (hstep m m' h hgoal hm') rfl
      refine ⟨n + 1, l, by omega, ?_, hgoal'⟩
      rw [steps, hm', ok_bind, hl]

theorem Inv.exists_steps_between (h : Inv source r m) (short : IsShort source)
    (running : m.phase ≠ .stopped) :
    ∃ n m', n ≤ measure source m ∧ steps source n m = .ok m' ∧ m'.phase = .between := by
  refine exists_steps (P := fun m => Inv source r m ∧ m.phase ≠ .stopped) short
    (fun _ h => h.1) (fun _ h _ => h.2) ?_ ⟨h, running⟩
  intro m m' hm hgoal hstep
  refine ⟨hm.1.of_step short hstep, fun hstopped => hgoal ?_⟩
  exact (hm.1.moves_of_step short hm.2 hstep).2 hstopped

theorem Inv.exists_steps_stopped (h : Inv source r m) (short : IsShort source) :
    ∃ n m', n ≤ measure source m ∧ steps source n m = .ok m' ∧ m'.phase = .stopped :=
  exists_steps short (fun _ h => h) (fun _ _ hgoal => hgoal)
    (fun _ _ hm _ hstep => hm.of_step short hstep) h

/-- A machine that has stopped has gone over the source and has found what the scan finds. -/
theorem Inv.finished (h : Inv source r m) (stopped : m.phase = .stopped) : Finished source r m := by
  cases h with
  | between h => exact absurd (h.phase_eq.symm.trans stopped) (by simp)
  | inside h => exact absurd stopped h.phase_ne_stopped
  | stopped h => exact h

theorem exists_finished (short : IsShort source) (r : ρ) :
    ∃ n m, steps source n (initial r) = .ok m ∧ Finished source r m := by
  have hinitial : Reachable source r (initial r) := .initial
  obtain ⟨n, m, -, hsteps, hstopped⟩ :=
    (inv_of_reachable hinitial short).exists_steps_stopped short
  have hinv := inv_of_reachable (hinitial.of_steps hsteps) short
  exact ⟨n, m, hsteps, hinv.finished hstopped⟩

end Runs

/-! ## Every moment -/

section Moments

variable [Reporter ρ] {source before text rest : List Char} {r : ρ} {es : List Event}
  {m m' : Machine ρ} {phase : Phase}

/-- A line feed that is counted ahead inside a string is made up for by the quote. -/
theorem count_counted_le (h : Pending phase text rest) :
    (counted phase text rest).count '\n' ≤ utf8Length text := by
  have hcount := count_le_utf8Length '\n' text
  cases phase with
  | first c => exact Nat.zero_le _
  | inString =>
    obtain ⟨⟨u, rfl, -⟩, c, s, rfl, -⟩ := h
    have hquote : utf8Length ('"' :: u) = 1 + utf8Length u := utf8Length_cons _ _
    have hu := count_le_utf8Length '\n' u
    have hc : [c].count '\n' ≤ 1 := List.count_le_length
    have hsplit : (counted .inString ('"' :: u) (c :: s)).count '\n'
        = u.count '\n' + [c].count '\n' := by
      simp [counted]
    omega
  | _ => exact hcount

theorem Account.current_boundary (h : Account source r before text rest es m) :
    IsBoundary source m.current :=
  ⟨before ++ text, ⟨rest, h.source_eq.symm⟩, h.current.symm⟩

theorem Account.current_le (h : Account source r before text rest es m) :
    m.current ≤ utf8Length source := by
  rw [h.length_source]
  exact Nat.le_add_right _ _

theorem utf8Length_le_of_prefix {s t : List Char} (h : s <+: t) : utf8Length s ≤ utf8Length t := by
  obtain ⟨u, rfl⟩ := h
  rw [utf8Length_append]
  exact Nat.le_add_right _ _

theorem Between.sound (h : Between source r before rest es m) : Sound source m := by
  obtain ⟨s, hs, hstart⟩ := h.start
  have hbegins : before <+: source := ⟨rest, by rw [h.account.source_eq, List.append_nil]⟩
  have hcurrent : m.current = utf8Length before :=
    h.account.current.trans (by rw [List.append_nil])
  have hcounts := h.account.counts_le
  have hline := line_advance_le before
  exact {
    start_le := by rw [← hstart, hcurrent]; exact utf8Length_le_of_prefix hs
    current_le := h.account.current_le
    start_boundary := ⟨s, hs.trans hbegins, hstart⟩
    current_boundary := h.account.current_boundary
    line_le := by rw [h.line, hcurrent]; exact hline
    errorCount_le := by omega
    counts_le := fun _ => hcounts }

theorem Inside.sound (h : Inside source r phase before text rest es m) : Sound source m := by
  have hcurrent := h.account.current
  rw [utf8Length_append] at hcurrent
  have hcounts := h.account.counts_le
  have hbefore := line_advance_le before
  have hcounted := count_counted_le h.pending
  have hline := h.line
  exact {
    start_le := by rw [h.start, hcurrent]; exact Nat.le_add_right _ _
    current_le := h.account.current_le
    start_boundary := ⟨before, ⟨text ++ rest, by simp [h.account.source_eq]⟩, h.start.symm⟩
    current_boundary := h.account.current_boundary
    line_le := by omega
    errorCount_le := by omega
    counts_le := fun _ => hcounts }

theorem Finished.sound (h : Finished source r m) : Sound source m := by
  obtain ⟨s, hs, hstart⟩ := h.start
  have hline := line_advance_le source
  exact {
    start_le := by rw [← hstart, h.current]; exact utf8Length_le_of_prefix hs
    current_le := Nat.le_of_eq h.current
    start_boundary := ⟨s, hs, hstart⟩
    current_boundary := ⟨source, List.prefix_rfl, h.current.symm⟩
    line_le := by rw [h.line, h.current]; exact hline
    errorCount_le := by rw [h.current]; exact h.few
    counts_le := fun hne => absurd h.phase_eq hne }

theorem Inv.sound (h : Inv source r m) : Sound source m := by
  cases h with
  | between h => exact h.sound
  | inside h => exact h.sound
  | stopped h => exact h.sound

/-- The tokens found so far are among those of the scan. -/
theorem Inv.mem_tokens (h : Inv source r m) {t : Token} (ht : t ∈ m.tokens) :
    t ∈ (scanFrom .start source).tokens := by
  -- before the end they are the tokens of the events found, which begin those of the scan
  have hpart : ∀ {before text rest es}, Account source r before text rest es m →
      t ∈ (scanFrom .start source).tokens := by
    intro before text rest es haccount
    obtain ⟨htokens, -⟩ := haccount.kept
    have hevents : (scanFrom .start source).events = es ++ _ := haccount.events
    rw [Scan.tokens, hevents, List.filterMap_append]
    rw [htokens] at ht
    exact List.mem_append_left _ (List.mem_append_left _ ht)
  cases h with
  | between h => exact hpart h.account
  | inside h => exact hpart h.account
  | stopped h =>
    obtain ⟨htokens, -⟩ := findings_eq_iff.1 h.found
    rw [htokens] at ht
    exact ht

theorem length_span_of_mem_tokens {t : Token} (ht : t ∈ (scanFrom .start source).tokens) :
    t.span.length = .ok (utf8Length t.lexeme.toList) := by
  rw [Span.length_eq_ok_iff]
  rcases exists_of_mem_tokens ht with rfl | ⟨kind, before, text, after, -, -, -, rfl⟩
  · rfl
  · rw [tokenAt, String.toList_ofList]

end Moments

/-! ## Safety -/

theorem phase_of_goOver {source : List Char} {m m' : Machine ρ} {phase : Phase}
    (h : m.goOver source phase = .ok m') : m'.phase = phase := by
  unfold goOver at h
  cases hadvance : m.advance source with
  | error fault =>
    rw [hadvance] at h
    exact absurd h (by simp [bind, Except.bind])
  | ok found =>
    rw [hadvance, ok_bind] at h
    exact Except.ok.inj h ▸ rfl

section

variable [Reporter ρ]

/-- One turn of the loop over a string goes over one character. -/
theorem goesOver_of_stringTurn {source : List Char} {r : ρ} {m m' : Machine ρ}
    (short : IsShort source) (h : Inv source r m) (hstring : m.phase = .string)
    (hstep : m.step source = .ok m') (hphase : m'.phase = .inString) :
    ∃ m'', m'.step source = .ok m'' ∧ m''.phase = .string ∧ GoesOver source m m'' := by
  have hinv := h.of_step short hstep
  have hrunning : m'.phase ≠ .stopped := by simp [hphase]
  obtain ⟨m'', hm''⟩ := hinv.exists_step short
  have hstring' : m''.phase = .string := by
    rw [step, hphase] at hm''
    exact phase_of_goOver hm''
  have hmoves := (hinv.moves_of_step short hrunning hm'').1
  obtain ⟨s, c, t, hsource, hcurrent, hnext⟩ :=
    hmoves.goesOver (by rw [hphase]; exact Nat.zero_le _)
  have hstays : m'.current = m.current := by
    cases (h.moves_of_step short (by simp [hstring]) hstep).1 with
    | stays current _ => exact current
    | passes _ notCounting => exact absurd hphase notCounting
  exact ⟨m'', hm'', hstring', s, c, t, hsource, hstays ▸ hcurrent, hnext⟩

/-- A scan of a source that is short enough for machine words is safe. -/
theorem runs_safely (source : String) (r : ρ) (short : IsShort source.toList) : Safe source r where
  noFault _ h := (inv_of_reachable h short).exists_step short
  sound _ h := (inv_of_reachable h short).sound
  lexeme m h hfresh n m' hsteps := by
    have hinv := inv_of_reachable h short
    obtain ⟨k, hstep⟩ := hinv.exists_step short
    have hmoves := (hinv.moves_of_step short (by simp [hfresh]) hstep).1
    -- the first character is gone over at once, and no step goes back
    have hover := hmoves.goesOver (by rw [hfresh]; exact Nat.zero_le _)
    rw [steps, hstep, ok_bind] at hsteps
    exact Nat.lt_of_lt_of_le hover.lt
      (current_le_of_steps short (hinv.of_step short hstep) hsteps)
  turn m m' h running hstep hsame :=
    ((inv_of_reachable h short).moves_of_step short running hstep).1.goesOver (by rw [hsame])
  stringTurn _ _ h hstring hstep hphase :=
    goesOver_of_stringTurn short (inv_of_reachable h short) hstring hstep hphase
  returns m h running := by
    obtain ⟨n, m', hn, hm', hbetween⟩ :=
      (inv_of_reachable h short).exists_steps_between short running
    exact ⟨n, m', Nat.le_trans hn (measure_le _ _), hm', h.of_steps hm', hbetween⟩
  ends m h := by
    obtain ⟨n, m', hn, hm', hstopped⟩ := (inv_of_reachable h short).exists_steps_stopped short
    exact ⟨n, m', Nat.le_trans hn (measure_le _ _), hm', h.of_steps hm', hstopped⟩
  result m h hstopped := by
    cases inv_of_reachable h short with
    | between h => exact absurd (h.phase_eq.symm.trans hstopped) (by simp)
    | inside h => exact absurd hstopped h.phase_ne_stopped
    | stopped h =>
      obtain ⟨htokens, -, hreporter, hlog⟩ := findings_eq_iff.1 h.found
      exact ⟨Prod.ext htokens hreporter, hlog⟩
  spans m h t ht := length_span_of_mem_tokens ((inv_of_reachable h short).mem_tokens ht)

end

/-- A fraction, a comment with a character of two bytes, and a string over two lines that nothing
closes. -/
theorem runs_safely_on_open_string :
    IsShort "1.5 // é\n\"a\nb".toList ∧
      Safe "1.5 // é\n\"a\nb" Diagnostics.empty :=
  ⟨by decide, runs_safely "1.5 // é\n\"a\nb" Diagnostics.empty (by decide)⟩

end Machine

end Lox
