import Lox.Proofs.Machine.Basic
import Lox.Proofs.Places

/-!
# What a machine knows of its source

`Account` ties a machine to the source: what is before the present lexeme, what of the lexeme the
machine has gone over, what is still to come, and the events found so far, which are those that the
pieces before the lexeme make. From an account follows what each operation of the machine comes to,
and that it meets no fault.
-/

set_option autoImplicit false

namespace Lox

/-- The sources that are short enough for machine words. -/
def IsShort (source : List Char) : Prop :=
  utf8Length source < UInt64.size - 1

instance (source : List Char) : Decidable (IsShort source) :=
  inferInstanceAs (Decidable (_ < _))

theorem count_le_utf8Length (c : Char) (s : List Char) : s.count c ≤ utf8Length s := by
  induction s with
  | nil => simp
  | cons d s ih =>
    have hd := d.utf8Size_pos
    have hone : (if (d == c) = true then 1 else 0) ≤ 1 := by split <;> omega
    rw [List.count_cons, utf8Length_cons]
    omega

/-- A text has at most one line more than bytes. -/
theorem line_advance_le (s : List Char) : (Position.start.advance s).line ≤ 1 + utf8Length s :=
  Nat.add_le_add_left (count_le_utf8Length '\n' s) 1

/-! ## What is found -/

/-- What a machine keeps of the events found so far. -/
structure Findings (ρ : Type) where
  tokens : List Token
  errorCount : Nat
  reporter : ρ
  log : List LogRecord

namespace Machine

variable {ρ : Type}

def findings (m : Machine ρ) : Findings ρ :=
  ⟨m.tokens, m.errorCount, m.reporter, m.log⟩

theorem findings_eq_iff {m : Machine ρ} {found : Findings ρ} :
    m.findings = found ↔ m.tokens = found.tokens ∧ m.errorCount = found.errorCount ∧
      m.reporter = found.reporter ∧ m.log = found.log := by
  cases found
  exact Findings.mk.injEq _ _ _ _ _ _ _ _ ▸ Iff.rfl

end Machine

section Findings

variable {ρ : Type} [Reporter ρ] {r : ρ} {es : List Event}

def Findings.ofEvents (r : ρ) (es : List Event) : Findings ρ where
  tokens := es.filterMap Event.token?
  errorCount := (es.filterMap Event.diagnostic?).length
  reporter := es.foldl reportEvent r
  log := es.map Event.logRecord

/-- Every event is a token or an error. -/
theorem length_tokens_add_errors (es : List Event) :
    (es.filterMap Event.token?).length + (es.filterMap Event.diagnostic?).length = es.length := by
  induction es with
  | nil => rfl
  | cons e es ih =>
    cases e with
    | token t =>
      simp only [List.filterMap_cons, Event.token?, Event.diagnostic?, List.length_cons]
      omega
    | fault p cause =>
      simp only [List.filterMap_cons, Event.token?, Event.diagnostic?, List.length_cons]
      omega

end Findings

namespace Machine

variable {ρ : Type} [Reporter ρ] {source before text rest : List Char} {r : ρ} {es : List Event}
  {m m' : Machine ρ}

/-! ## Accounts -/

/-- The machine has gone over `before` and `text` of the source; `before` consists of whole pieces,
which make the events `es`. -/
structure Account (source : List Char) (r : ρ) (before text rest : List Char) (es : List Event)
    (m : Machine ρ) : Prop where
  source_eq : source = before ++ text ++ rest
  current : m.current = utf8Length (before ++ text)
  found : m.findings = .ofEvents r es
  events : eventsFrom .start (pieces source)
    = es ++ eventsFrom (Position.start.advance before) (pieces (text ++ rest))
  few : es.length ≤ utf8Length before

namespace Account

theorem congr (h : Account source r before text rest es m) (hcurrent : m'.current = m.current)
    (hfound : m'.findings = m.findings) : Account source r before text rest es m' :=
  ⟨h.source_eq, hcurrent.trans h.current, hfound.trans h.found, h.events, h.few⟩

/-- One character more is gone over. -/
theorem pass {c : Char} (h : Account source r before text (c :: rest) es m)
    (hcurrent : m'.current = m.current + c.utf8Size) (hfound : m'.findings = m.findings) :
    Account source r before (text ++ [c]) rest es m' where
  source_eq := by rw [h.source_eq]; simp
  current := by rw [hcurrent, h.current]; simp [Nat.add_assoc]
  found := hfound.trans h.found
  events := by rw [h.events]; simp
  few := h.few

/-- What is gone over is a whole piece, and its event is found. -/
theorem close {x : Piece} (h : Account source r before text rest es m) (htext : x.text = text)
    (hpieces : pieces (text ++ rest) = x :: pieces rest) (hne : text ≠ [])
    (hcurrent : m'.current = m.current)
    (hfound : m'.findings
      = .ofEvents r (es ++ (x.eventAt? (Position.start.advance before)).toList)) :
    Account source r (before ++ text) [] rest
      (es ++ (x.eventAt? (Position.start.advance before)).toList) m' where
  source_eq := by rw [h.source_eq, List.append_nil]
  current := by rw [hcurrent, h.current, List.append_nil]
  found := hfound
  events := by
    rw [h.events, hpieces, eventsFrom_cons, htext, Position.advance_append, List.nil_append,
      List.append_assoc]
  few := by
    have hfew := h.few
    have hpos := utf8Length_pos hne
    have hone : (x.eventAt? (Position.start.advance before)).toList.length ≤ 1 := by
      cases x.eventAt? (Position.start.advance before) <;> simp
    rw [List.length_append, utf8Length_append]
    omega

theorem length_source (h : Account source r before text rest es m) :
    utf8Length source = m.current + utf8Length rest := by
  rw [h.current, ← utf8Length_append, ← h.source_eq]

/-! ## Looking ahead -/

theorem isAtEnd_eq (h : Account source r before text rest es m) :
    m.isAtEnd source = rest.isEmpty := by
  have hlength := h.length_source
  cases rest with
  | nil =>
    rw [utf8Length_nil] at hlength
    simp only [isAtEnd, List.isEmpty_nil, decide_eq_true_eq]
    omega
  | cons c rest =>
    have hpos := utf8Length_pos (List.cons_ne_nil c rest)
    simp only [isAtEnd, List.isEmpty_cons, decide_eq_false_iff_not]
    omega

theorem sliceFrom_current (h : Account source r before text rest es m) :
    sliceFrom source m.current = .ok rest := by
  rw [h.current, h.source_eq]
  exact sliceFrom_append _ _

theorem peek_eq (h : Account source r before text rest es m) :
    m.peek source = .ok (rest.head?.getD '\x00') := by
  rw [peek, h.sliceFrom_current]
  rfl

theorem peekNext_eq (h : Account source r before text rest es m) :
    m.peekNext source = .ok ((rest.drop 1).head?.getD '\x00') := by
  rw [peekNext, h.sliceFrom_current]
  rfl

theorem addWord_current {c : Char} (h : Account source r before text (c :: rest) es m)
    (short : IsShort source) : addWord m.current c.utf8Size = .ok (m.current + c.utf8Size) := by
  have hlength := h.length_source
  unfold IsShort at short
  rw [utf8Length_cons] at hlength
  exact addWord_eq_ok (by omega)

theorem advance_eq {c : Char} (h : Account source r before text (c :: rest) es m)
    (short : IsShort source) :
    m.advance source = .ok (c, { m with current := m.current + c.utf8Size }) := by
  rw [advance, h.peek_eq, ok_bind, h.isAtEnd_eq, if_neg (by simp), List.head?_cons,
    Option.getD_some, h.addWord_current short]
  rfl

theorem goOver_eq {c : Char} (h : Account source r before text (c :: rest) es m)
    (short : IsShort source) (phase : Phase) :
    m.goOver source phase
      = .ok { m with current := m.current + c.utf8Size, phase := phase } := by
  rw [goOver, h.advance_eq short]
  rfl

/-- A character that is expected next is gone over. -/
theorem matchChar_of_eq {c : Char} (h : Account source r before text (c :: rest) es m)
    (short : IsShort source) :
    m.matchChar source c = .ok (true, { m with current := m.current + c.utf8Size }) := by
  rw [matchChar, h.peek_eq, ok_bind, h.isAtEnd_eq, List.head?_cons, Option.getD_some,
    if_neg (by simp), h.addWord_current short]
  rfl

/-- A character that is not next is not gone over; the end of the source is no character. -/
theorem matchChar_of_ne {c : Char} (h : Account source r before text rest es m)
    (hne : rest.head? ≠ some c) : m.matchChar source c = .ok (false, m) := by
  rw [matchChar, h.peek_eq, ok_bind, h.isAtEnd_eq, if_pos]
  · rfl
  · cases rest with
    | nil => exact .inr rfl
    | cons d rest => exact .inl fun hd => hne (by rw [List.head?_cons, ← hd]; rfl)

end Account

/-! ## Finding -/

/-- Nothing but the findings is changed; they are those of the events `es`. -/
structure Finds (r : ρ) (es : List Event) (m m' : Machine ρ) : Prop where
  phase : m'.phase = m.phase
  start : m'.start = m.start
  current : m'.current = m.current
  line : m'.line = m.line
  found : m'.findings = .ofEvents r es

omit [Reporter ρ] in
theorem push_eq {t : Token} (hfew : m.tokens.length + 1 < UInt64.size) :
    m.push t = .ok { m with tokens := m.tokens ++ [t] } := by
  rw [push, addWord_eq_ok hfew]
  rfl

namespace Account

/-- What the machine keeps of the events, field by field. -/
theorem kept (h : Account source r before text rest es m) :
    m.tokens = es.filterMap Event.token? ∧
      m.errorCount = (es.filterMap Event.diagnostic?).length ∧
      m.reporter = es.foldl reportEvent r ∧ m.log = es.map Event.logRecord :=
  findings_eq_iff.1 h.found

theorem counts_eq (h : Account source r before text rest es m) :
    m.tokens.length + m.errorCount = es.length := by
  obtain ⟨htokens, herrors, -, -⟩ := h.kept
  rw [htokens, herrors]
  exact length_tokens_add_errors es

theorem counts_le (h : Account source r before text rest es m) :
    m.tokens.length + m.errorCount ≤ m.current := by
  have hcounts := h.counts_eq
  have hfew := h.few
  have hcurrent := h.current
  rw [utf8Length_append] at hcurrent
  omega

/-- There is room for one token more, and for one error more. -/
theorem tokens_lt (h : Account source r before text rest es m) (short : IsShort source) :
    m.tokens.length + 1 < UInt64.size ∧ m.errorCount + 1 < UInt64.size := by
  have hcounts := h.counts_le
  have hsource := h.length_source
  unfold IsShort at short
  omega

/-- The present lexeme becomes a token. -/
theorem addLiteral_eq {kind : Kind} {literal : Literal}
    (h : Account source r before text rest es m) (short : IsShort source)
    (hstart : m.start = utf8Length before)
    (hline : m.startLine = (Position.start.advance before).line)
    (hliteral : literal = literalOf kind text) :
    ∃ m', m.addLiteral source kind literal = .ok m' ∧
      Finds r (es ++ [.token (tokenAt (Position.start.advance before) kind text)]) m m' := by
  have hslice : slice source m.start m.current = .ok text :=
    slice_eq_ok_iff.2 ⟨before, rest, h.source_eq, hstart.symm, h.current.symm⟩
  -- the fields of the machine say where the lexeme begins and ends, and on which line
  have htoken : (⟨kind, String.ofList text, literal, m.startLine, ⟨m.start, m.current⟩⟩ : Token)
      = tokenAt (Position.start.advance before) kind text := by
    rw [tokenAt, hliteral, hline, hstart, h.current, utf8Length_append]
    simp [Position.advance, Position.start]
  unfold addLiteral
  rw [hslice, ok_bind, htoken]
  have hpush := push_eq (m := { m with
    log := m.log ++ [(Event.token (tokenAt (Position.start.advance before) kind text)).logRecord] })
    (t := tokenAt (Position.start.advance before) kind text) (h.tokens_lt short).1
  refine ⟨_, hpush, rfl, rfl, rfl, rfl, ?_⟩
  obtain ⟨htokens, herrors, hreporter, hlog⟩ := h.kept
  simp [findings, Findings.ofEvents, htokens, herrors, hreporter, hlog, Event.token?,
    Event.diagnostic?, reportEvent]

/-- The present lexeme, if it is one at all, is reported. -/
theorem fail_eq {p : Position} (h : Account source r before text rest es m)
    (short : IsShort source) (cause : LexicalFault) :
    ∃ m', m.fail p.line cause.message = .ok m' ∧ Finds r (es ++ [.fault p cause]) m m' := by
  have hcount := addWord_eq_ok (h.tokens_lt short).2
  unfold fail
  rw [hcount]
  refine ⟨_, rfl, rfl, rfl, rfl, rfl, ?_⟩
  obtain ⟨htokens, herrors, hreporter, hlog⟩ := h.kept
  simp [findings, Findings.ofEvents, htokens, herrors, hreporter, hlog, Event.token?,
    Event.diagnostic?, reportEvent, Event.logRecord]

end Account

end Machine

end Lox
