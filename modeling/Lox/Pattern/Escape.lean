import Lox.Pattern.Cursor
import Lox.Pattern.Phrase

/-!
# Escapes of written patterns

What a backslash and the characters after it stand for: a character, a set of characters, or a place
in a text.
-/

set_option autoImplicit false

namespace Lox

/-- A part of a written pattern that has no other parts in it. -/
inductive SimplePart where
  | literal (part : LiteralPart)
  | dot (extent : Extent)
  | place (extent : Extent) (name : PlaceName)
  | short (part : ShortPart)
  | property (part : PropertyPart)
  deriving DecidableEq, Repr

namespace SimplePart

def extent : SimplePart → Extent
  | literal part => part.extent
  | dot e | place e _ => e
  | short part => part.extent
  | property part => part.extent

/-- A simple part outside of brackets. -/
def phrase : SimplePart → Phrase
  | literal part => .literal part
  | dot e => .dot e
  | place e name => .place e name
  | short part => .short part
  | property part => .property part

/-- A simple part as an item of a set. -/
def setItem : SimplePart → Except PatternFault SetPhrase
  | literal part => .ok (.literal part)
  | short part => .ok (.short part)
  | property part => .ok (.property part)
  | dot e | place e _ => failPattern .setEscape e

/-- A simple part as the end of a range. -/
def rangeBound : SimplePart → Except PatternFault LiteralPart
  | literal part => .ok part
  | part => failPattern .rangeBound part.extent

end SimplePart

namespace Cursor

/-! ## Characters by their numbers -/

/-- The value of a hexadecimal digit. -/
def hexValue? (c : Char) : Option Nat :=
  if c.isDigit then some (c.toNat - '0'.toNat)
  else if 'a' ≤ c ∧ c ≤ 'f' then some (c.toNat - 'a'.toNat + 10)
  else if 'A' ≤ c ∧ c ≤ 'F' then some (c.toNat - 'A'.toNat + 10)
  else none

/-- The character whose number the digits are. -/
def charOfHex? (digits : List Char) : Option Char :=
  let n := digits.foldl (fun n d => 16 * n + (hexValue? d).getD 0) 0
  if n.isValidChar then some (Char.ofNat n) else none

/-- Reads a number of hexadecimal digits. -/
def readHexDigits (isVerbose : Bool) : Nat → Cursor → Except PatternFault (List Char × Cursor)
  | 0, c => .ok ([], c)
  | count + 1, c =>
    match c.rest with
    | [] => failPattern .escapeEnd c.here
    | x :: _ =>
      if (hexValue? x).isSome then do
        let (digits, after) ← readHexDigits isVerbose count (c.advance isVerbose)
        .ok (x :: digits, after)
      else failPattern .hexDigit c.ofNext

/-- Reads the number of a character in braces, from the opening one on. -/
def readHexInBraces (isVerbose : Bool) (start : Mark) (c : Cursor) :
    Except PatternFault (LiteralPart × Cursor) :=
  let (digits, last) := (c.advance isVerbose).takeWhile isVerbose fun x => (hexValue? x).isSome
  if last.isAtEnd then failPattern .escapeEnd (last.since c.mark)
  else if last.isAt '\x7d' then
    let after := last.advance isVerbose
    if digits.isEmpty then failPattern .noHexDigits (after.since c.mark)
    else
      match charOfHex? digits with
      | none => failPattern .noCharacter (last.since c.next.mark)
      | some x => .ok (⟨after.since start, x, false⟩, after)
  else failPattern .hexDigit last.ofNext

/-- Reads the number of a character, from the letter on that says how many digits it has. -/
def readHex (isVerbose : Bool) (start : Mark) (letter : Char) (c : Cursor) :
    Except PatternFault (LiteralPart × Cursor) :=
  let first := c.advance isVerbose
  if first.isAtEnd then failPattern .escapeEnd first.here
  else if first.isAt '\x7b' then readHexInBraces isVerbose start first
  else do
    let count := if letter = 'x' then 2 else if letter = 'u' then 4 else 8
    let (digits, after) ← readHexDigits isVerbose count first
    match charOfHex? digits with
    | none => failPattern .noCharacter (after.since first.mark)
    | some x => .ok (⟨after.since start, x, letter = 'x'⟩, after)

/-! ## Sets and places -/

/-- Reads the name of a property, from the letter before it on. -/
def readProperty (isVerbose : Bool) (start : Mark) (isNegated : Bool) (c : Cursor) :
    Except PatternFault (PropertyPart × Cursor) :=
  let first := c.advance isVerbose
  match first.rest with
  | [] => failPattern .escapeEnd first.here
  | x :: _ =>
    if x = '\x7b' then
      let (name, last) := (first.advance isVerbose).takeWhile isVerbose (· != '\x7d')
      if last.isAtEnd then failPattern .escapeEnd last.here
      else .ok (⟨last.next.since start, name, isNegated⟩, last.next)
    else if x = '\\' then failPattern .propertyLetter first.ofNext
    else
      let after := first.advance isVerbose
      .ok (⟨after.since start, [x], isNegated⟩, after)

/-- The set that a letter stands for after a backslash. -/
def shortSet? (letter : Char) : Option ShortSet :=
  if letter = 'd' ∨ letter = 'D' then some .digit
  else if letter = 's' ∨ letter = 'S' then some .space
  else if letter = 'w' ∨ letter = 'W' then some .word
  else none

/-- The places beside words that have names. -/
def wordPlaceOfName? (name : List Char) : Option WordPlace :=
  if name = "start".toList then some .start
  else if name = "end".toList then some .stop
  else if name = "start-half".toList then some .startHalf
  else if name = "end-half".toList then some .stopHalf
  else none

/-- Reads the name of a place beside a word, from the opening brace on. What does not begin with a
letter or a hyphen is no such name, but may be a count. -/
def readWordPlace (isVerbose : Bool) (start : Mark) (c : Cursor) :
    Except PatternFault (WordPlace × Cursor) := do
  let first := c.advance isVerbose
  let (name, last) := first.takeWhile isVerbose fun x => x.isAlpha || x == '-'
  if first.isAtEnd then failPattern .wordPlaceEnd (first.since start)
  else if name.isEmpty then .ok (.boundary, c)
  else if last.isAt '\x7d' then
    match wordPlaceOfName? name with
    | some place => .ok (place, last.next)
    | none => failPattern .unknownWordPlace (last.since first.mark)
  else failPattern .openWordPlace (last.since c.mark)

/-- The place that a letter or an angle stands for after a backslash. -/
def placeOf? (letter : Char) : Option PlaceName :=
  if letter = 'A' then some .textStart
  else if letter = 'z' then some .textEnd
  else if letter = 'b' then some (.word .boundary)
  else if letter = 'B' then some (.word .noBoundary)
  else if letter = '<' then some (.word .start)
  else if letter = '>' then some (.word .stop)
  else none

/-- The control characters that have a letter. -/
def controlOf? (letter : Char) : Option Char :=
  if letter = 'a' then some '\x07'
  else if letter = 'f' then some '\x0c'
  else if letter = 't' then some '\t'
  else if letter = 'n' then some '\n'
  else if letter = 'r' then some '\r'
  else if letter = 'v' then some '\x0b'
  else none

/-- Whether a backslash before a character changes nothing, if it stands for nothing else. -/
def isEscapable (c : Char) : Bool :=
  c ≤ '\x7f' && !c.isAlphanum && c != '<' && c != '>'

/-! ## Escapes -/

/-- Reads an escape, from the backslash on. -/
def readEscape (isVerbose : Bool) (c : Cursor) : Except PatternFault (SimplePart × Cursor) :=
  let start := c.mark
  let second := c.next
  let after := second.next
  let extent := after.since start
  match second.rest with
  | [] => failPattern .escapeEnd (second.since start)
  | x :: _ =>
    if x.isDigit then failPattern .backReference extent
    else if x = 'x' ∨ x = 'u' ∨ x = 'U' then do
      let (part, after) ← readHex isVerbose start x second
      .ok (.literal part, after)
    else if x = 'p' ∨ x = 'P' then do
      let (part, after) ← readProperty isVerbose start (x = 'P') second
      .ok (.property part, after)
    else if isEscapable x then .ok (.literal ⟨extent, x, false⟩, after)
    else if x = 'b' ∧ after.isAt '\x7b' then do
      let (place, last) ← readWordPlace isVerbose start after
      .ok (.place (last.since start) (.word place), last)
    else
      match shortSet? x, controlOf? x, placeOf? x with
      | some set, _, _ => .ok (.short ⟨extent, set, x.isUpper⟩, after)
      | _, some control, _ => .ok (.literal ⟨extent, control, false⟩, after)
      | _, _, some name => .ok (.place extent name, after)
      | none, none, none => failPattern .unknownEscape extent

end Cursor

end Lox
