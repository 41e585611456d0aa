import Lox.Proofs.Machine.Account

/-!
# The invariant of a machine

In every phase but the first and the last of a scan, the machine is inside a lexeme: `Pending` says,
phase by phase, what it has gone over of the lexeme and what may follow, and `counted` how far the
lines are counted. `Inv` is what holds of every machine that a scan comes by; a step keeps it, and
goes over one whole character or comes to a phase of lower rank (`Moves`).
-/

set_option autoImplicit false

namespace Lox

/-! ## The tables of marks -/

theorem singleMark?_eq_some {c : Char} {p : Punctuation} (h : singleMark? c = some p) :
    p.spelling.toList = [c] ∧ p.extension? = none := by
  unfold singleMark? at h
  split at h <;> cases h <;> exact ⟨rfl, rfl⟩

theorem doubleMark?_eq_some {c : Char} {long short : Punctuation}
    (h : doubleMark? c = some (long, short)) :
    (long.spelling.toList = [c, '='] ∧ long.extension? = none) ∧
      short.spelling.toList = [c] ∧ short.extension? = some '=' := by
  unfold doubleMark? at h
  split at h <;> cases h <;> exact ⟨⟨rfl, rfl⟩, rfl, rfl⟩

/-- No mark begins with a character that neither table has, but for the slash. -/
theorem ofSpelling?_eq_none_of_tables {c : Char} (hsingle : singleMark? c = none)
    (hdouble : doubleMark? c = none) (hslash : c ≠ '/') (s : List Char) :
    Punctuation.ofSpelling? (c :: s) = none := by
  cases hp : Punctuation.ofSpelling? (c :: s) with
  | none => rfl
  | some p =>
    have hhead : p.spelling.toList.head? = some c := by
      rw [Punctuation.ofSpelling?_eq_some_iff.1 hp]
      rfl
    cases p <;> cases hhead <;>
      first
      | exact absurd hsingle (by decide)
      | exact absurd hdouble (by decide)
      | exact absurd rfl hslash

namespace Machine

/-! ## The phases -/

/-- What the machine has gone over of a lexeme, and what may follow. -/
def Pending (phase : Phase) (text rest : List Char) : Prop :=
  match phase with
  | .fresh => text = [] ∧ rest ≠ []
  | .first c => text = [c]
  | .ready p => text = p.spelling.toList ∧ ¬ Extends (.mark p) text rest
  | .comment => ∃ u, text = '/' :: '/' :: u ∧ '\n' ∉ u
  | .string => ∃ u, text = '"' :: u ∧ '"' ∉ u
  | .inString => (∃ u, text = '"' :: u ∧ '"' ∉ u) ∧ ∃ c s, rest = c :: s ∧ c ≠ '"'
  | .quoted => ∃ u, text = '"' :: u ++ ['"'] ∧ '"' ∉ u
  | .whole => IsDigits text
  | .fraction => ∃ whole u, text = whole ++ '.' :: u ∧ IsDigits whole ∧
      (∀ d ∈ u, d.isDigit = true) ∧ (u = [] → ∃ d s, rest = d :: s ∧ d.isDigit = true)
  | .word => IsWord text
  | .between | .stopped => False

/-- The part of a lexeme whose lines are counted: the first character is gone over before its line
is counted, a character inside a string afterwards. -/
def counted (phase : Phase) (text rest : List Char) : List Char :=
  match phase with
  | .first _ => []
  | .inString => text ++ rest.take 1
  | .between | .fresh | .ready _ | .comment | .string | .quoted | .whole | .fraction | .word
  | .stopped => text

end Machine

/-- How many steps there may be before a machine goes over a character or finishes. In a phase of
rank zero it does so at once. -/
def Phase.rank : Phase → Nat
  | .fresh | .inString | .stopped => 0
  | .between => 1
  | .ready _ | .comment | .quoted | .whole | .fraction | .word => 2
  | .string => 3
  | .first _ => 4

theorem Phase.rank_le (phase : Phase) : phase.rank ≤ 4 := by
  cases phase <;> simp [rank]

namespace Machine

variable {ρ : Type} [Reporter ρ] {source before text rest : List Char} {r : ρ} {es : List Event}
  {m m' : Machine ρ} {phase phase' : Phase}

/-! ## The invariant -/

/-- The machine is inside a lexeme. -/
structure Inside (source : List Char) (r : ρ) (phase : Phase) (before text rest : List Char)
    (es : List Event) (m : Machine ρ) : Prop where
  phase_eq : m.phase = phase
  account : Account source r before text rest es m
  start : m.start = utf8Length before
  startLine : m.startLine = (Position.start.advance before).line
  line : m.line = (Position.start.advance before).line + (counted phase text rest).count '\n'
  pending : Pending phase text rest

/-- The machine is between two lexemes; `start` is where one of the earlier ones began. -/
structure Between (source : List Char) (r : ρ) (before rest : List Char) (es : List Event)
    (m : Machine ρ) : Prop where
  phase_eq : m.phase = .between
  account : Account source r before [] rest es m
  start : ∃ s, s <+: before ∧ utf8Length s = m.start
  line : m.line = (Position.start.advance before).line

/-- The machine has finished, and what it found is the scan of the source. -/
structure Finished (source : List Char) (r : ρ) (m : Machine ρ) : Prop where
  phase_eq : m.phase = .stopped
  current : m.current = utf8Length source
  start : ∃ s, s <+: source ∧ utf8Length s = m.start
  line : m.line = (Position.start.advance source).line
  few : m.errorCount ≤ utf8Length source
  found : m.findings = ⟨(scanFrom .start source).tokens, (scanFrom .start source).errors.length,
    (scanFrom .start source).events.foldl reportEvent r, (scanFrom .start source).log⟩

/-- What holds of every machine that a scan comes by. -/
inductive Inv (source : List Char) (r : ρ) (m : Machine ρ) : Prop where
  | between {before rest : List Char} {es : List Event} (h : Between source r before rest es m)
  | inside {phase : Phase} {before text rest : List Char} {es : List Event}
      (h : Inside source r phase before text rest es m)
  | stopped (h : Finished source r m)

/-! ## Moves -/

/-- One whole character of the source is gone over. -/
def GoesOver (source : List Char) (m m' : Machine ρ) : Prop :=
  ∃ s c t, source = s ++ c :: t ∧ m.current = utf8Length s ∧ m'.current = utf8Length (s ++ [c])

/-- One whole character is gone over, or the rank goes down. The line of a character inside a string
is counted while the machine stays before it. -/
inductive Moves (source : List Char) (m m' : Machine ρ) : Prop where
  | stays (current : m'.current = m.current) (lower : m'.phase.rank < m.phase.rank)
  | passes (goesOver : GoesOver source m m') (notCounting : m'.phase ≠ .inString)

/-- The machine goes on without a fault, keeps the invariant and moves. It finishes between two
lexemes only. -/
def GoesOn (source : List Char) (r : ρ) (m : Machine ρ) (next : Except MachineFault (Machine ρ)) :
    Prop :=
  ∃ m', next = .ok m' ∧ Inv source r m' ∧ Moves source m m' ∧
    (m'.phase = .stopped → m.phase = .between)

namespace Inside

theorem phase_ne_stopped (h : Inside source r phase before text rest es m) :
    m.phase ≠ .stopped := by
  rintro hstopped
  have hpending := h.pending
  rw [← h.phase_eq, hstopped] at hpending
  exact hpending

/-- Only the phase is another one. -/
theorem enter (h : Inside source r phase before text rest es m)
    (pending : Pending phase' text rest)
    (hcount : (counted phase' text rest).count '\n' = (counted phase text rest).count '\n')
    (lower : phase'.rank < phase.rank) :
    GoesOn source r m (.ok (m.enter phase')) := by
  have hinside : Inside source r phase' before text rest es (m.enter phase') :=
    ⟨rfl, h.account.congr rfl rfl, h.start, h.startLine, hcount ▸ h.line, pending⟩
  exact ⟨_, rfl, .inside hinside, .stays rfl (h.phase_eq ▸ lower),
    fun hstopped => absurd hstopped hinside.phase_ne_stopped⟩

/-- The next character is gone over. -/
theorem pass {c : Char} (h : Inside source r phase before text (c :: rest) es m)
    (pending : Pending phase' (text ++ [c]) rest)
    (hcount : (counted phase' (text ++ [c]) rest).count '\n'
      = (counted phase text (c :: rest)).count '\n')
    (notCounting : phase' ≠ .inString) :
    GoesOn source r m (.ok { m with current := m.current + c.utf8Size, phase := phase' }) := by
  have haccount : Account source r before (text ++ [c]) rest es { m with
      current := m.current + c.utf8Size, phase := phase' } := h.account.pass rfl rfl
  have hinside : Inside source r phase' before (text ++ [c]) rest es { m with
      current := m.current + c.utf8Size, phase := phase' } :=
    ⟨rfl, haccount, h.start, h.startLine, hcount ▸ h.line, pending⟩
  refine ⟨_, rfl, .inside hinside, .passes ?_ notCounting,
    fun hstopped => absurd hstopped hinside.phase_ne_stopped⟩
  refine ⟨before ++ text, c, rest, h.account.source_eq, h.account.current, ?_⟩
  rw [haccount.current, List.append_assoc]

/-- The lexeme is over. -/
theorem close {x : Piece} (h : Inside source r phase before text rest es m) (htext : x.text = text)
    (hpieces : pieces (text ++ rest) = x :: pieces rest) (hne : text ≠ [])
    (hphase : m'.phase = .between) (hcurrent : m'.current = m.current) (hstart : m'.start = m.start)
    (hline : m'.line = (Position.start.advance before).line + text.count '\n')
    (hfound : m'.findings
      = .ofEvents r (es ++ (x.eventAt? (Position.start.advance before)).toList))
    (lower : 1 < phase.rank) : GoesOn source r m (.ok m') := by
  have hbetween : Between source r (before ++ text) rest
      (es ++ (x.eventAt? (Position.start.advance before)).toList) m' :=
    ⟨hphase, h.account.close htext hpieces hne hcurrent hfound,
      ⟨before, List.prefix_append _ _, by rw [hstart, h.start]⟩,
      by rw [hline, Position.advance_append]; rfl⟩
  refine ⟨m', rfl, .between hbetween, .stays hcurrent ?_, fun hstopped => ?_⟩
  · rw [hphase, h.phase_eq]
    exact lower
  · exact absurd (hphase.symm.trans hstopped) (by simp)

/-- The lexeme is over and becomes a token. -/
theorem addLiteral {kind : Kind} {literal : Literal}
    (h : Inside source r phase before text rest es m) (short : IsShort source)
    (hlex : IsLexeme kind text) (hext : ¬ Extends kind text rest)
    (hcount : (counted phase text rest).count '\n' = text.count '\n')
    (hliteral : literal = literalOf kind text) (lower : 1 < phase.rank) :
    GoesOn source r m ((m.enter .between).addLiteral source kind literal) := by
  have haccount : Account source r before text rest es (m.enter .between) :=
    h.account.congr rfl rfl
  obtain ⟨m', hm', hfinds⟩ := haccount.addLiteral_eq short h.start h.startLine hliteral
  have hline : m'.line = (Position.start.advance before).line + text.count '\n' := by
    rw [hfinds.line, ← hcount]
    exact h.line
  rw [hm']
  exact h.close rfl (pieces_lexeme_append hlex hext) hlex.text_ne_nil hfinds.phase hfinds.current
    hfinds.start hline hfinds.found lower

/-- What is gone over is no lexeme, and is reported. -/
theorem fail {x : Piece} {cause : LexicalFault} {line : Nat}
    (h : Inside source r phase before text rest es m) (short : IsShort source)
    (htext : x.text = text) (hpieces : pieces (text ++ rest) = x :: pieces rest) (hne : text ≠ [])
    (hevent : x.eventAt? (Position.start.advance before)
      = some (.fault (Position.start.advance before) cause))
    (hcount : (counted phase text rest).count '\n' = text.count '\n')
    (hreport : line = (Position.start.advance before).line) (lower : 1 < phase.rank) :
    GoesOn source r m ((m.enter .between).fail line cause.message) := by
  have haccount : Account source r before text rest es (m.enter .between) :=
    h.account.congr rfl rfl
  obtain ⟨m', hm', hfinds⟩ :=
    haccount.fail_eq (p := Position.start.advance before) short cause
  have hline : m'.line = (Position.start.advance before).line + text.count '\n' := by
    rw [hfinds.line, ← hcount]
    exact h.line
  rw [hreport, hm']
  refine h.close htext hpieces hne hfinds.phase hfinds.current hfinds.start hline ?_ lower
  rw [hevent]
  exact hfinds.found

end Inside

end Machine

end Lox
