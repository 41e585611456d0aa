import Lox.Pattern.Basic

/-!
# The size of a pattern

A pattern is refused if the machine that would look for it takes too much memory
(`Pattern.isTooLarge`). The machine reads bytes and has about one state for each byte or set of
bytes that the pattern names; a part that is to be repeated counts as often as it is. There are two
such machines, one of which reads backwards and remembers no groups.
-/

set_option autoImplicit false

namespace Lox

attribute [local instance(2000)] instPowNat

namespace CharSet

/-! ## The bytes of a set -/

/-- Texts of bytes, each place of which is a range of bytes. -/
abbrev ByteRanges := List (Nat × Nat)

/-- The numbers from `first` to `last` as numerals of a leading digit and `count` digits in base 64,
as few rows of ranges as there can be. -/
def numeralRows : Nat → Nat → Nat → List ByteRanges
  | 0, first, last => [[(first, last)]]
  | count + 1, first, last =>
    let unit := 64 ^ (count + 1)
    let low := first / unit
    let high := last / unit
    let whole := List.replicate (count + 1) (0, 63)
    if low = high then
      (numeralRows count (first % unit) (last % unit)).map ((low, low) :: ·)
    else
      let isLowWhole := first % unit = 0
      let isHighWhole := last % unit = unit - 1
      let from' := if isLowWhole then low else low + 1
      let upTo := if isHighWhole then high + 1 else high
      (if isLowWhole then [] else
          (numeralRows count (first % unit) (unit - 1)).map ((low, low) :: ·))
        ++ (if from' < upTo then [(from', upTo - 1) :: whole] else [])
        ++ (if isHighWhole then [] else
          (numeralRows count 0 (last % unit)).map ((high, high) :: ·))

/-- The numbers of characters that take one to four bytes, with the count of the bytes after the
first and what the first byte adds to its digit. -/
def widths : List (Nat × Nat × Nat × Nat) :=
  [(0, 0x7f, 0, 0), (0x80, 0x7ff, 1, 0xc0), (0x800, 0xd7ff, 2, 0xe0), (0xe000, 0xffff, 2, 0xe0),
    (0x10000, 0x10ffff, 3, 0xf0)]

/-- The UTF-8 forms of the characters of a range. -/
def rowsOfRange (r : CharRange) : List ByteRanges :=
  widths.flatMap fun (first, last, count, mark) =>
    let first := max first r.first
    let last := min last r.last
    if first ≤ last then
      (numeralRows count first last).map fun row =>
        match row with
        | [] => []
        | (low, high) :: row => (low + mark, high + mark) :: row
    else []

/-- The UTF-8 forms of the characters of a set. -/
def rows (s : CharSet) : List ByteRanges :=
  s.ranges.flatMap rowsOfRange

end CharSet

namespace Pattern

/-! ## Memory -/

/-- The memory of a state. -/
def stateSize : Nat := 32

/-- The memory of one of several ways out of a state. -/
def wayOutSize : Nat := 4

/-- The memory of a way out of a state that is bound to a range of bytes. -/
def rangeSize : Nat := 8

/-- How many states read the beginnings of rows of bytes, if rows share what they begin with. -/
def beginnings (rows : List CharSet.ByteRanges) : List CharSet.ByteRanges :=
  (rows.flatMap fun row => (List.range row.length).map fun n => row.take (n + 1)).eraseDups

/-- The memory to read a set backwards. Forms that begin with the same bytes share their states. -/
def backwardSetSize (rows : List CharSet.ByteRanges) : Nat :=
  stateSize * (2 + (beginnings rows).length) + wayOutSize * rows.length

/-- What may follow a beginning of some rows. -/
def following (rows : List CharSet.ByteRanges) (start : CharSet.ByteRanges) :
    List CharSet.ByteRanges :=
  (rows.filter fun row => start.isPrefixOf row).map fun row => row.drop start.length

/-- The memory to read a set forwards. Beginnings after which the same bytes may follow share a
state. -/
def forwardSetSize (rows : List CharSet.ByteRanges) : Nat :=
  let states := (([] :: beginnings rows).map fun start => following rows start).eraseDups
  states.foldl
    (fun size rows => size + stateSize + rangeSize * (rows.filterMap List.head?).eraseDups.length) 0

/-- The memory to read one character of a set. -/
def setSize (isForward : Bool) (s : CharSet) : Nat :=
  match s.single? with
  | some c => stateSize * c.utf8Size
  | none =>
    if s.isAscii then 2 * stateSize + rangeSize * s.ranges.length
    else if isForward then forwardSetSize s.rows
    else backwardSetSize s.rows

/-- Whether a pattern may stand for the empty text somewhere. -/
def mayBeEmpty : Pattern → Bool
  | empty | place _ => true
  | one _ => false
  | group body => body.mayBeEmpty
  | seq first second => first.mayBeEmpty && second.mayBeEmpty
  | alt first second => first.mayBeEmpty || second.mayBeEmpty
  | repeated least _ body => least == 0 || body.mayBeEmpty

/-- The memory of a state with two ways out. -/
def forkSize : Nat := stateSize + 2 * wayOutSize

/-- The memory that it takes to look for a pattern, forwards or backwards. -/
def size (isForward : Bool) : Pattern → Nat
  | empty | place _ => stateSize
  | one s => setSize isForward s
  | group body => body.size isForward + if isForward then 2 * stateSize else 0
  | seq first second => first.size isForward + second.size isForward
  | alt first second =>
    first.size isForward + second.size isForward
      + match second with
        | alt _ _ => wayOutSize
        | _ => forkSize + stateSize
  | repeated least none body =>
    let bodySize := body.size isForward
    if least = 0 then
      bodySize + if body.mayBeEmpty then 2 * forkSize + stateSize else forkSize
    else least * bodySize + forkSize
  | repeated least (some most) body =>
    let bodySize := body.size isForward
    let optional := (most - least) * (bodySize + forkSize) + if least < most then stateSize else 0
    least * bodySize + optional + if least = 0 ∧ most ≠ 1 then stateSize else 0

/-- The memory that a pattern may take. -/
def sizeLimit : Nat := 10485760

/-- The memory of what is not of the pattern: the search for its start, and the last state. -/
def frameSize : Nat := 7 * stateSize

/-- Whether a pattern takes more memory than it may. -/
def isTooLarge (p : Pattern) : Bool :=
  sizeLimit < p.size true + frameSize || sizeLimit < p.size false + frameSize

end Pattern

end Lox
