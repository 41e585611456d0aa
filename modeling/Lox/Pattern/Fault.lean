/-!
# Faults of written patterns

A fault is a cause and the part of the written pattern that it is about (`PatternFault`). It is
reported with the pattern and a line of carets below that part (`PatternFault.report`); a pattern of
several lines is set between rules, with its lines numbered.
-/

set_option autoImplicit false

namespace Lox

/-! ## Parts of a written pattern -/

/-- A place in a written pattern; lines and columns are counted from one. -/
structure Mark where
  line : Nat
  column : Nat
  deriving DecidableEq, Repr

namespace Mark

/-- The place before the first character. -/
def start : Mark := ⟨1, 1⟩

/-- The place after a character. -/
def after (m : Mark) (c : Char) : Mark :=
  if c = '\n' then ⟨m.line + 1, 1⟩ else ⟨m.line, m.column + 1⟩

/-- Whether a place comes before another. -/
def isBefore (m n : Mark) : Bool :=
  m.line < n.line || (m.line == n.line && m.column < n.column)

end Mark

/-- What stands between two places. -/
structure Extent where
  start : Mark
  stop : Mark
  deriving DecidableEq, Repr

namespace Extent

def isOneLine (e : Extent) : Bool := e.start.line == e.stop.line

/-- Whether an extent comes before another: it begins earlier, or there and ends earlier. -/
def isBefore (e f : Extent) : Bool :=
  e.start.isBefore f.start || (e.start == f.start && e.stop.isBefore f.stop)

end Extent

/-! ## Causes -/

/-- Why a written pattern stands for nothing. -/
inductive PatternCause where
  | setEscape
  | backwardRange
  | rangeBound
  | openSet
  | noHexDigits
  | noCharacter
  | hexDigit
  | escapeEnd
  | unknownEscape
  | negationEnd
  | repeatedFlag
  | repeatedNegation
  | flagEnd
  | unknownFlag
  | repeatedName
  | noName
  | nameCharacter
  | nameEnd
  | openGroup
  | noGroup
  | tooDeep (limit : Nat)
  | backwardCount
  | noCount
  | countTooLarge
  | openCount
  | nothingToRepeat
  | openWordPlace
  | unknownWordPlace
  | wordPlaceEnd
  | propertyLetter
  | backReference
  | lookAround
  | noUnicode
  | invalidUtf8
  | unknownProperty
  | unknownPropertyValue
  | noShortSets
  | noCases
  deriving DecidableEq, Repr

def PatternCause.message : PatternCause → String
  | setEscape => "invalid escape sequence found in character class"
  | backwardRange => "invalid character class range, the start must be <= the end"
  | rangeBound => "invalid range boundary, must be a literal"
  | openSet => "unclosed character class"
  | noHexDigits => "hexadecimal literal empty"
  | noCharacter => "hexadecimal literal is not a Unicode scalar value"
  | hexDigit => "invalid hexadecimal digit"
  | escapeEnd => "incomplete escape sequence, reached end of pattern prematurely"
  | unknownEscape => "unrecognized escape sequence"
  | negationEnd => "dangling flag negation operator"
  | repeatedFlag => "duplicate flag"
  | repeatedNegation => "flag negation operator repeated"
  | flagEnd => "expected flag but got end of regex"
  | unknownFlag => "unrecognized flag"
  | repeatedName => "duplicate capture group name"
  | noName => "empty capture group name"
  | nameCharacter => "invalid capture group character"
  | nameEnd => "unclosed capture group name"
  | openGroup => "unclosed group"
  | noGroup => "unopened group"
  | tooDeep limit =>
    "exceed the maximum number of nested parentheses/brackets (" ++ toString limit ++ ")"
  | backwardCount => "invalid repetition count range, the start must be <= the end"
  | noCount => "repetition quantifier expects a valid decimal"
  | countTooLarge => "decimal literal invalid"
  | openCount => "unclosed counted repetition"
  | nothingToRepeat => "repetition operator missing expression"
  | openWordPlace =>
    "special word boundary assertion is either unclosed or contains an invalid character"
  | unknownWordPlace =>
    "unrecognized special word boundary assertion, "
      ++ "valid choices are: start, end, start-half or end-half"
  | wordPlaceEnd =>
    "found either the beginning of a special word boundary "
      ++ "or a bounded repetition on a \\b with an opening brace, but no closing brace"
  | propertyLetter => "invalid Unicode character class"
  | backReference => "backreferences are not supported"
  | lookAround => "look-around, including look-ahead and look-behind, is not supported"
  | noUnicode => "Unicode not allowed here"
  | invalidUtf8 => "pattern can match invalid UTF-8"
  | unknownProperty => "Unicode property not found"
  | unknownPropertyValue => "Unicode property value not found"
  | noShortSets =>
    "Unicode-aware Perl class not found (make sure the unicode-perl feature is enabled)"
  | noCases =>
    "Unicode-aware case insensitivity matching is not available "
      ++ "(make sure the unicode-case feature is enabled)"

/-! ## Reports -/

/-- A fault of a written pattern, at one part of it; `earlier` is what that part repeats. -/
structure PatternFault where
  cause : PatternCause
  extent : Extent
  earlier : Option Extent
  deriving DecidableEq, Repr

/-- Ends the reading of a pattern with a fault. -/
def failPattern {α : Type} (cause : PatternCause) (extent : Extent) : Except PatternFault α :=
  .error ⟨cause, extent, none⟩

namespace PatternFault

/-- The parts of the pattern to be shown, in order. -/
def extents (fault : PatternFault) : List Extent :=
  match fault.earlier with
  | none => [fault.extent]
  | some e => if e.isBefore fault.extent then [e, fault.extent] else [fault.extent, e]

/-- A line of carets below parts of a line, of which `column` columns are written. -/
def caretsFrom (column : Nat) : List Extent → List Char
  | [] => []
  | e :: extents =>
    let blanks := e.start.column - 1 - column
    let carets := max 1 (e.stop.column - e.start.column)
    List.replicate blanks ' ' ++ List.replicate carets '^'
      ++ caretsFrom (column + blanks + carets) extents

/-- The lines of a pattern. A line feed at its end begins no line, and a carriage return before a
line feed belongs to it. -/
def linesOf (pattern : List Char) : List (List Char) :=
  let pieces := pattern.splitOn '\n'
  let ended := pieces.dropLast.map fun line =>
    if line.getLast? = some '\r' then line.dropLast else line
  match pieces.getLast? with
  | none | some [] => ended
  | some line => ended ++ [line]

/-- How many columns the number of a line takes; a pattern of one line has no numbers. -/
def numberWidth (pattern : List Char) : Nat :=
  let count := (linesOf pattern).length + if pattern.getLast? = some '\n' then 1 else 0
  if count ≤ 1 then 0 else (toString count).length

/-- What stands before a line: its number, or four blanks. -/
def margin (width line : Nat) : List Char :=
  if width = 0 then "    ".toList
  else
    let number := (toString line).toList
    List.replicate (width - number.length) ' ' ++ number ++ ": ".toList

/-- A line of the pattern with the carets below it. -/
def showLine (fault : PatternFault) (width : Nat) (text : List Char) (line : Nat) : List Char :=
  let marked := fault.extents.filter fun e => e.isOneLine && e.start.line == line
  let carets :=
    if marked.isEmpty then []
    else List.replicate (if width = 0 then 4 else width + 2) ' ' ++ caretsFrom 0 marked ++ ['\n']
  margin width line ++ text ++ ['\n'] ++ carets

/-- The pattern with the carets. -/
def showPattern (fault : PatternFault) (pattern : List Char) : List Char :=
  let width := numberWidth pattern
  ((linesOf pattern).zipIdx 1).flatMap fun (text, line) => fault.showLine width text line

/-- A part of more than one line is told by its ends. -/
def tellLines (e : Extent) : String :=
  "on line " ++ toString e.start.line ++ " (column " ++ toString e.start.column ++ ") through line "
    ++ toString e.stop.line ++ " (column " ++ toString (e.stop.column - 1) ++ ")\n"

/-- The whole report. -/
def report (fault : PatternFault) (pattern : List Char) : String :=
  let shown := String.ofList (fault.showPattern pattern)
  let body :=
    if pattern.contains '\n' then
      let rule := String.ofList (List.replicate 79 '~') ++ "\n"
      let far := (fault.extents.filter fun e => !e.isOneLine).map tellLines
      rule ++ shown ++ rule ++ String.join far
    else shown
  "regex parse error:\n" ++ body ++ "error: " ++ fault.cause.message

end PatternFault

end Lox
