import Lox.Log.Basic

/-!
# A scan as a machine on bytes

A machine goes over a source once, from left to right. It keeps two byte offsets, where the present
lexeme starts and what comes next, two line numbers and a count of errors, all of them machine
words; it looks at the source through slices. Arithmetic that leaves the machine words and slices
that are out of range or cut a character are faults that stop it.

One step does at most one thing to the offsets, the line and the counts, so that the machines that a
scan comes by (`Machine.Reachable`) are all moments of it. That this is how `scan` finds its events,
and that no fault occurs, is proved in `Lox.Proofs.Machine.Safety`.
-/

set_option autoImplicit false

namespace Lox

/-! ## Machine words and slices -/

/-- What stops a machine before it has finished. -/
inductive MachineFault where
  /-- A sum or a difference is no machine word. -/
  | overflow
  /-- A slice is out of range, ends before it starts or cuts a character. -/
  | badSlice
  deriving DecidableEq, Repr

/-- The sum of two machine words. -/
def addWord (m n : Nat) : Except MachineFault Nat :=
  if m + n < UInt64.size then .ok (m + n) else .error .overflow

/-- The difference of two machine words. -/
def subWord (m n : Nat) : Except MachineFault Nat :=
  if n ≤ m then .ok (m - n) else .error .overflow

/-- A text up to byte `n` and from there on, if a character begins there or the text ends there. -/
def splitBytes? (n : Nat) : List Char → Option (List Char × List Char)
  | [] => if n = 0 then some ([], []) else none
  | c :: s =>
    if n = 0 then some ([], c :: s)
    else if c.utf8Size ≤ n then
      (splitBytes? (n - c.utf8Size) s).map fun (t, u) => (c :: t, u)
    else none

/-- The text from byte `start` on. -/
def sliceFrom (source : List Char) (start : Nat) : Except MachineFault (List Char) :=
  match splitBytes? start source with
  | some (_, s) => .ok s
  | none => .error .badSlice

/-- The text from byte `start` up to byte `stop`. -/
def slice (source : List Char) (start stop : Nat) : Except MachineFault (List Char) := do
  let s ← sliceFrom source start
  if start ≤ stop then
    match splitBytes? (stop - start) s with
    | some (t, _) => return t
    | none => .error .badSlice
  else .error .badSlice

@[simp] theorem ok_bind {α β : Type} (a : α) (f : α → Except MachineFault β) :
    (Except.ok a >>= f) = f a := rfl

theorem addWord_eq_ok {m n : Nat} (h : m + n < UInt64.size) : addWord m n = .ok (m + n) :=
  if_pos h

theorem subWord_eq_ok {m n : Nat} (h : n ≤ m) : subWord m n = .ok (m - n) :=
  if_pos h

/-- A text is split at byte `n` exactly if a text of `n` bytes begins it. -/
theorem splitBytes?_eq_some_iff {n : Nat} {s t u : List Char} :
    splitBytes? n s = some (t, u) ↔ s = t ++ u ∧ utf8Length t = n := by
  induction s generalizing n t with
  | nil =>
    by_cases hn : n = 0
    · subst hn
      rw [splitBytes?, if_pos rfl, Option.some.injEq, Prod.mk.injEq]
      constructor
      · rintro ⟨rfl, rfl⟩
        exact ⟨rfl, rfl⟩
      · rintro ⟨hs, -⟩
        obtain ⟨rfl, rfl⟩ := List.append_eq_nil_iff.1 hs.symm
        exact ⟨rfl, rfl⟩
    · rw [splitBytes?, if_neg hn]
      refine ⟨fun h => absurd h (by simp), fun ⟨hs, hlen⟩ => ?_⟩
      obtain ⟨rfl, -⟩ := List.append_eq_nil_iff.1 hs.symm
      exact absurd hlen.symm hn
  | cons c s ih =>
    by_cases hn : n = 0
    · subst hn
      rw [splitBytes?, if_pos rfl, Option.some.injEq, Prod.mk.injEq]
      constructor
      · rintro ⟨rfl, rfl⟩
        exact ⟨rfl, rfl⟩
      · rintro ⟨hs, hlen⟩
        cases t with
        | nil => exact ⟨rfl, hs⟩
        | cons d t =>
          have hd := d.utf8Size_pos
          rw [utf8Length_cons] at hlen
          omega
    · rw [splitBytes?, if_neg hn]
      constructor
      · intro h
        split at h
        next hle =>
          obtain ⟨⟨t', u'⟩, htail, heq⟩ := Option.map_eq_some_iff.1 h
          obtain ⟨rfl, rfl⟩ := Prod.mk.inj heq
          obtain ⟨rfl, hlen⟩ := ih.1 htail
          exact ⟨rfl, by rw [utf8Length_cons]; omega⟩
        next => exact absurd h (by simp)
      · rintro ⟨hs, hlen⟩
        cases t with
        | nil => exact absurd hlen.symm hn
        | cons d t =>
          obtain ⟨rfl, rfl⟩ := List.cons.inj hs
          rw [utf8Length_cons] at hlen
          rw [if_pos (by omega), Option.map_eq_some_iff]
          exact ⟨(t, u), ih.2 ⟨rfl, by omega⟩, rfl⟩

theorem sliceFrom_append (s t : List Char) : sliceFrom (s ++ t) (utf8Length s) = .ok t := by
  rw [sliceFrom, splitBytes?_eq_some_iff.2 ⟨rfl, rfl⟩]

/-- A slice is a text inside the source, with the bytes before it and before its end. -/
theorem slice_eq_ok_iff {source text : List Char} {start stop : Nat} :
    slice source start stop = .ok text ↔
      ∃ before after, source = before ++ text ++ after ∧ utf8Length before = start ∧
        utf8Length (before ++ text) = stop := by
  constructor
  · intro h
    unfold slice sliceFrom at h
    split at h
    next before s hsplit =>
      obtain ⟨rfl, rfl⟩ := splitBytes?_eq_some_iff.1 hsplit
      rw [ok_bind] at h
      split at h
      next hle =>
        split at h
        next t after hsplit =>
          obtain rfl : t = text := Except.ok.inj h
          obtain ⟨rfl, hlen⟩ := splitBytes?_eq_some_iff.1 hsplit
          refine ⟨before, after, (List.append_assoc _ _ _).symm, rfl, ?_⟩
          rw [utf8Length_append]
          omega
        next => exact absurd h (by simp)
      next => exact absurd h (by simp)
    next => exact absurd h (by simp [bind, Except.bind])
  · rintro ⟨before, after, rfl, rfl, rfl⟩
    have hle : utf8Length before ≤ utf8Length (before ++ text) := by
      rw [utf8Length_append]
      omega
    have hlen : utf8Length text = utf8Length (before ++ text) - utf8Length before := by
      rw [utf8Length_append]
      omega
    unfold slice
    rw [List.append_assoc, sliceFrom_append, ok_bind, if_pos hle,
      splitBytes?_eq_some_iff.2 ⟨rfl, hlen⟩]
    rfl

example : slice ['a', 'é'] 1 2 = .error .badSlice := rfl

/-! ## Machines -/

/-- What comes next. -/
inductive Phase where
  /-- The test of the main loop. -/
  | between
  /-- The first character of a lexeme. -/
  | fresh
  /-- The choice by the first character of a lexeme, which the machine has gone over. -/
  | first (c : Char)
  /-- The token of a mark. -/
  | ready (p : Punctuation)
  /-- The test of the loop over a comment. -/
  | comment
  /-- The test of the loop over a string. -/
  | string
  /-- A character inside a string; its line is counted. -/
  | inString
  /-- The token of a string. -/
  | quoted
  /-- The test of the loop over the digits before a point. -/
  | whole
  /-- The test of the loop over the digits after a point. -/
  | fraction
  /-- The test of the loop over a word. -/
  | word
  /-- Nothing: the machine has finished. -/
  | stopped
  deriving DecidableEq, Repr

structure Machine (ρ : Type) where
  phase : Phase
  /-- Where the present lexeme starts. -/
  start : Nat
  /-- Where the next character starts. -/
  current : Nat
  line : Nat
  /-- The line on which the present lexeme starts. -/
  startLine : Nat
  errorCount : Nat
  tokens : List Token
  reporter : ρ
  log : List LogRecord

/-- The mark that a character is, whatever follows it. -/
def singleMark? : Char → Option Punctuation
  | '(' => some .leftParen
  | ')' => some .rightParen
  | '{' => some .leftBrace
  | '}' => some .rightBrace
  | ',' => some .comma
  | '.' => some .dot
  | '-' => some .minus
  | '+' => some .plus
  | ';' => some .semicolon
  | '*' => some .star
  | _ => none

/-- The marks that a character is before `=` and otherwise. -/
def doubleMark? : Char → Option (Punctuation × Punctuation)
  | '!' => some (.bangEqual, .bang)
  | '=' => some (.equalEqual, .equal)
  | '<' => some (.lessEqual, .less)
  | '>' => some (.greaterEqual, .greater)
  | _ => none

/-- The number that digits, with or without a fraction, are. -/
def numeral? (text : List Char) : Option Binary64 :=
  let whole := text.takeWhile Char.isDigit
  match text.dropWhile Char.isDigit with
  | [] => if whole.isEmpty then none else some (Decimal.ofDigits whole []).toBinary64
  | c :: fraction =>
    if c = '.' ∧ !whole.isEmpty ∧ !fraction.isEmpty ∧ fraction.all Char.isDigit then
      some (Decimal.ofDigits whole fraction).toBinary64
    else none

namespace Machine

variable {ρ : Type}

/-- The machine before its first step. -/
def initial (r : ρ) : Machine ρ := ⟨.between, 0, 0, 1, 1, 0, [], r, []⟩

section Steps

variable (source : List Char) (m : Machine ρ)

def enter (phase : Phase) : Machine ρ := { m with phase := phase }

/-! ### Looking ahead -/

def isAtEnd : Bool :=
  utf8Length source ≤ m.current

/-- The next character; at the end of the source a character that may also be in it. -/
def peek : Except MachineFault Char := do
  let s ← sliceFrom source m.current
  return s.head?.getD '\x00'

/-- The character after the next one. -/
def peekNext : Except MachineFault Char := do
  let s ← sliceFrom source m.current
  return (s.drop 1).head?.getD '\x00'

/-- Goes over the next character, unless the source ends here. -/
def advance : Except MachineFault (Char × Machine ρ) := do
  let c ← m.peek source
  if m.isAtEnd source then return (c, m)
  else
    let stop ← addWord m.current c.utf8Size
    return (c, { m with current := stop })

/-- Goes over the next character if it is the expected one. -/
def matchChar (expected : Char) : Except MachineFault (Bool × Machine ρ) := do
  let c ← m.peek source
  if c ≠ expected ∨ m.isAtEnd source = true then return (false, m)
  else
    let stop ← addWord m.current expected.utf8Size
    return (true, { m with current := stop })

def newLine : Except MachineFault (Machine ρ) := do
  let line ← addWord m.line 1
  return { m with line := line }

/-! ### What is found -/

/-- Adds a token, which is counted too. -/
def push (t : Token) : Except MachineFault (Machine ρ) := do
  let _ ← addWord m.tokens.length 1
  return { m with tokens := m.tokens ++ [t] }

/-- Adds the token of the present lexeme. -/
def addLiteral (kind : Kind) (literal : Literal) : Except MachineFault (Machine ρ) := do
  let text ← slice source m.start m.current
  let t : Token := ⟨kind, String.ofList text, literal, m.startLine, ⟨m.start, m.current⟩⟩
  let record : LogRecord :=
    ⟨.trace, LogRecord.scanTarget, "line " ++ toString t.line ++ ": " ++ t.display⟩
  { m with log := m.log ++ [record] }.push t

def addToken (kind : Kind) : Except MachineFault (Machine ρ) :=
  m.addLiteral source kind .absent

variable [Reporter ρ]

/-- Reports an error, which is counted too. -/
def fail (line : Nat) (message : String) : Except MachineFault (Machine ρ) := do
  let record : LogRecord :=
    ⟨.debug, LogRecord.scanTarget, "lexical error at line " ++ toString line ++ ": " ++ message⟩
  let count ← addWord m.errorCount 1
  return { m with
    log := m.log ++ [record]
    errorCount := count
    reporter := Reporter.report m.reporter (.onLine line message) }

/-! ### Steps -/

/-- Goes over the next character; `phase` comes after it. -/
def goOver (phase : Phase) : Except MachineFault (Machine ρ) := do
  let (_, m) ← m.advance source
  return m.enter phase

/-- The test of the main loop. -/
def startLexeme : Machine ρ :=
  { m with start := m.current, startLine := m.line, phase := .fresh }

/-- Adds the token that ends every scan. -/
def finish : Except MachineFault (Machine ρ) := do
  let m ← m.push ⟨.eof, "", .absent, m.line, ⟨utf8Length source, utf8Length source⟩⟩
  let record : LogRecord :=
    ⟨.debug, LogRecord.scanTarget,
      "scanned " ++ toString m.tokens.length ++ " tokens over " ++ toString m.line ++ " lines ("
        ++ toString m.errorCount ++ " errors)"⟩
  return { m with log := m.log ++ [record], phase := .stopped }

/-- The choice by the first character `c` of a lexeme. -/
def choose (c : Char) : Except MachineFault (Machine ρ) :=
  match singleMark? c, doubleMark? c with
  | some p, _ => return m.enter (.ready p)
  | none, some (long, short) => do
    let (found, m) ← m.matchChar source '='
    return m.enter (.ready (if found then long else short))
  | none, none =>
    if c = '/' then do
      let (found, m) ← m.matchChar source '/'
      return m.enter (if found then .comment else .ready .slash)
    else if c = ' ' ∨ c = '\r' ∨ c = '\t' then return m.enter .between
    else if c = '\n' then (m.enter .between).newLine
    else if c = '"' then return m.enter .string
    else if c.isDigit then return m.enter .whole
    else if isWordStart c then return m.enter .word
    else (m.enter .between).fail m.line "Unexpected character."

/-- The test of the loop over a string, and what comes after the loop. -/
def testString : Except MachineFault (Machine ρ) := do
  let c ← m.peek source
  if c ≠ '"' ∧ m.isAtEnd source = false then
    if c = '\n' then (m.enter .inString).newLine else return m.enter .inString
  else if m.isAtEnd source then (m.enter .between).fail m.startLine "Unterminated string."
  else m.goOver source .quoted

/-- What is between the quotes is the value of a string. -/
def addString : Except MachineFault (Machine ρ) := do
  let first ← addWord m.start 1
  let stop ← subWord m.current 1
  let value ← slice source first stop
  (m.enter .between).addLiteral source .string (.string (String.ofList value))

def addNumber : Except MachineFault (Machine ρ) := do
  let text ← slice source m.start m.current
  match numeral? text with
  | some value => (m.enter .between).addLiteral source .number (.number value)
  | none => (m.enter .between).fail m.line "Invalid number."

def addWordToken : Except MachineFault (Machine ρ) := do
  let text ← slice source m.start m.current
  (m.enter .between).addToken source (.ofWord text)

def step : Except MachineFault (Machine ρ) :=
  match m.phase with
  | .between => if m.isAtEnd source then m.finish source else return m.startLexeme
  | .fresh => do
    let (c, m) ← m.advance source
    return m.enter (.first c)
  | .first c => m.choose source c
  | .ready p => (m.enter .between).addToken source (.mark p)
  | .comment => do
    let c ← m.peek source
    if c ≠ '\n' ∧ m.isAtEnd source = false then m.goOver source .comment
    else return m.enter .between
  | .string => m.testString source
  | .inString => m.goOver source .string
  | .quoted => m.addString source
  | .whole => do
    let c ← m.peek source
    if c.isDigit then m.goOver source .whole
    else if c = '.' then
      let d ← m.peekNext source
      if d.isDigit then m.goOver source .fraction else m.addNumber source
    else m.addNumber source
  | .fraction => do
    let c ← m.peek source
    if c.isDigit then m.goOver source .fraction else m.addNumber source
  | .word => do
    let c ← m.peek source
    if isWordPart c then m.goOver source .word else m.addWordToken source
  | .stopped => return m

/-- A number of steps. -/
def steps : Nat → Machine ρ → Except MachineFault (Machine ρ)
  | 0, m => return m
  | n + 1, m => do steps n (← m.step source)

end Steps

/-- The machines that a scan comes by. -/
inductive Reachable [Reporter ρ] (source : List Char) (r : ρ) : Machine ρ → Prop where
  | initial : Reachable source r (.initial r)
  | step {m m' : Machine ρ} (reachable : Reachable source r m) (next : m.step source = .ok m') :
      Reachable source r m'

end Machine

end Lox
