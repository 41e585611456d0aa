import Lox.Log.Basic

/-!
# Log lines

The line of text that a record becomes. The level is set in five columns and the lines of a message
after its first are indented. What would control a terminal is taken out (`printable`): control
characters that are not white space, and escape sequences.
-/

set_option autoImplicit false

namespace Lox

/-! ## Escape sequences -/

/-- The sequence that a terminal has begun to read. -/
inductive EscapeSequence where
  /-- No sequence. -/
  | none
  /-- A sequence of which the escape character alone is read. -/
  | escape
  /-- A sequence of which only the last character is still to come. -/
  | intermediate
  /-- The parameters of a control sequence. -/
  | control
  /-- The text of a control string that the bell ends too. -/
  | titleString
  /-- A device control string before its parameters. -/
  | deviceString
  /-- The parameters of a device control string. -/
  | deviceParameters
  /-- A device control string between its parameters and its text. -/
  | deviceIntermediate
  /-- The text of any other control string. -/
  | controlString
  deriving DecidableEq, Repr

namespace EscapeSequence

/-- Whether white space is shown though it stands in the sequence. -/
def showsBlanks : EscapeSequence → Bool
  | none | escape | intermediate | control => true
  | titleString | deviceString | deviceParameters | deviceIntermediate | controlString => false

/-- The sequence after one more printable character of one byte. -/
def onward (sequence : EscapeSequence) (c : Char) : EscapeSequence :=
  match sequence with
  | none => none
  | escape =>
    if c ≤ '\x2f' then intermediate
    else if c = '[' then control
    else if c = ']' then titleString
    else if c = 'P' then deviceString
    else if c = 'X' ∨ c = '^' ∨ c = '_' then controlString
    else none
  | intermediate => if c ≤ '\x2f' then intermediate else none
  | control => if c ≤ '\x3f' then control else none
  | deviceString =>
    if c ≤ '\x2f' then deviceIntermediate
    else if c = ':' then controlString
    else if c ≤ '\x3f' then deviceParameters
    else controlString
  | deviceParameters =>
    if c ≤ '\x2f' then deviceIntermediate
    else if c.isDigit ∨ c = ';' then deviceParameters
    else controlString
  | deviceIntermediate => if c ≤ '\x2f' then deviceIntermediate else controlString
  | titleString => titleString
  | controlString => controlString

/-- The sequence after a character of more than one byte. None of its bytes has a meaning in a
sequence, but the byte `9c` ends the text of a control string. -/
def afterWide (sequence : EscapeSequence) (c : Char) : EscapeSequence :=
  if sequence = controlString ∧ (String.utf8EncodeChar c).contains 0x9c then none else sequence

/-- The sequence after a control character that ends none and begins none. -/
def afterControl (sequence : EscapeSequence) (c : Char) : EscapeSequence :=
  if sequence = titleString ∧ c = '\x07' then none else sequence

end EscapeSequence

/-! ## Text without terminal controls -/

/-- What a terminal takes the next character for. White space that is shown in the middle of a
sequence interrupts it: up to the next control character all text is shown, and there the sequence
goes on. -/
structure TerminalState where
  sequence : EscapeSequence
  interrupted : Bool
  deriving DecidableEq, Repr

namespace TerminalState

/-- The state outside of all sequences. -/
def ground : TerminalState := ⟨.none, false⟩

/-- The control characters of white space. -/
def isBlankControl (c : Char) : Bool :=
  c == '\t' || c == '\n' || c == '\x0c' || c == '\r'

/-- Whether a character is a control character of one byte. -/
def isControl (c : Char) : Bool :=
  c < ' ' || c == '\x7f'

/-- Whether text is shown in a state. -/
def showsText (state : TerminalState) : Bool :=
  state.sequence = .none || state.interrupted

/-- Takes one character: the state that follows, and whether the character is shown. -/
def step (state : TerminalState) (c : Char) : TerminalState × Bool :=
  if c = '\x1b' then (⟨.escape, false⟩, false)
  else if c = '\x18' ∨ c = '\x1a' then (ground, false)
  else if isBlankControl c ∧ state.sequence.showsBlanks then (⟨state.sequence, true⟩, true)
  else if isControl c then (⟨state.sequence.afterControl c, false⟩, false)
  else if state.showsText then (if '\x7f' < c then ground else state, true)
  else if '\x7f' < c then (⟨state.sequence.afterWide c, false⟩, false)
  else (⟨state.sequence.onward c, false⟩, false)

end TerminalState

/-- Takes one more character of a text; what is shown so far comes the latest first. -/
def showNext (state : TerminalState × List Char) (c : Char) : TerminalState × List Char :=
  let (next, isShown) := state.1.step c
  (next, if isShown then c :: state.2 else state.2)

/-- What a terminal shows of a text. -/
def printable (text : List Char) : List Char :=
  (text.foldl showNext (.ground, [])).2.reverse

/-! ## The line of a record -/

namespace LogRecord

/-- The name of a level, filled up to five columns. -/
def levelColumn (level : LogLevel) : List Char :=
  let name := level.name.toList
  name ++ List.replicate (5 - name.length) ' '

/-- A message whose lines after the first are indented by four columns. -/
def indented (message : String) : List Char :=
  message.toList.flatMap fun c => if c = '\n' then "\n    ".toList else [c]

/-- The line of a record. -/
def line (record : LogRecord) : String :=
  String.ofList <| printable <|
    '[' :: levelColumn record.level ++ ' ' :: record.target.toList ++ ']' :: ' '
      :: indented record.message ++ ['\n']

end LogRecord

end Lox
