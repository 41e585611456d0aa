import Lox.Pattern.Escape

/-!
# Sets in brackets

A set is written in brackets: characters, ranges, named sets and sets in brackets, one after
another. Between two such rows may stand an operator; operators are applied from left to right.
-/

set_option autoImplicit false

namespace Lox

/-- A set that is being read, up to its closing bracket. -/
structure OpenSet where
  /-- The opening bracket and what belongs to it. -/
  extent : Extent
  isNegated : Bool
  /-- What stands before the last operator, and that operator. -/
  left : Option (SetPhrase × SetOperator)
  /-- Where the items since the last operator may begin. -/
  start : Mark
  /-- The items since the last operator, the latest first. -/
  items : List SetPhrase

namespace OpenSet

def push (set : OpenSet) (item : SetPhrase) : OpenSet :=
  { set with items := item :: set.items }

/-- What is read so far. -/
def body (set : OpenSet) : SetPhrase :=
  let right := SetPhrase.ofItems set.start set.items
  match set.left with
  | none => right
  | some (left, operator) =>
    .operation ⟨left.extent.start, right.extent.stop⟩ operator left right

/-- Reads on after an operator. -/
def pushOperator (set : OpenSet) (operator : SetOperator) (after : Mark) : OpenSet :=
  { set with left := some (set.body, operator), start := after, items := [] }

/-- The set, closed before a place. -/
def close (set : OpenSet) (after : Mark) : SetPhrase :=
  .bracketed ⟨set.extent.start, after⟩ set.isNegated set.body

end OpenSet

namespace Cursor

/-- A character that stands for itself. -/
def literalHere (c : Cursor) (x : Char) : LiteralPart := ⟨c.ofNext, x, false⟩

/-- Reads the hyphens at the start of a set, which stand for themselves. -/
def readHyphens (isVerbose : Bool) (c : Cursor) : List SetPhrase × Cursor :=
  match _h : c.rest with
  | [] => ([], c)
  | x :: _ =>
    if x = '-' then
      let (items, after) := (c.advance isVerbose).readHyphens isVerbose
      (items ++ [.literal (c.literalHere x)], after)
    else ([], c)
termination_by c.rest.length
decreasing_by exact length_advance_lt isVerbose _h

/-- Reads the opening bracket of a set, a sign of negation, and hyphens or a closing bracket that
stand for themselves. -/
def readSetOpening (isVerbose : Bool) (c : Cursor) : Except PatternFault (OpenSet × Cursor) := do
  let second := c.advance isVerbose
  let isNegated := second.isAt '^'
  let first := if isNegated then second.advance isVerbose else second
  if first.isAtEnd then failPattern .openSet (first.since c.mark)
  else
    let (hyphens, after) := first.readHyphens isVerbose
    if after.isAtEnd then failPattern .openSet c.here
    else if hyphens.isEmpty ∧ after.isAt ']' then
      let items : List SetPhrase := [.literal (after.literalHere ']')]
      let after := after.advance isVerbose
      if after.isAtEnd then failPattern .openSet (after.since c.mark)
      else .ok (⟨after.since c.mark, isNegated, none, first.mark, items⟩, after)
    else .ok (⟨after.since c.mark, isNegated, none, first.mark, hyphens⟩, after)

/-- Reads a named set of ASCII characters, from its opening bracket on, if one stands here. -/
def readNamedSet? (c : Cursor) : Option (SetPhrase × Cursor) := do
  let first ← c.afterText? "[:"
  let isNegated := first.isAt '^'
  let first := if isNegated then first.next else first
  let (name, last) := first.takeWhile false (· != ':')
  let set ← CharSet.ofName? name
  let after ← last.afterText? ":]"
  some (.named (after.since c.mark) set isNegated, after)

/-- Reads a character of a set, or an escape in it. -/
def readSetPart (isVerbose : Bool) (c : Cursor) : Except PatternFault (SimplePart × Cursor) :=
  match c.rest with
  | [] => .ok (.literal (c.literalHere '\x00'), c)
  | x :: _ => if x = '\\' then c.readEscape isVerbose else .ok (.literal (c.literalHere x), c.next)

/-- Reads an item of a set: a range, a character or an escape. A hyphen before a closing bracket or
another hyphen makes no range. -/
def readSetItem (isVerbose : Bool) (set : OpenSet) (c : Cursor) :
    Except PatternFault (SetPhrase × Cursor) := do
  let (first, after) ← c.readSetPart isVerbose
  let c' := after.skip isVerbose
  if c'.isAtEnd then failPattern .openSet set.extent
  else if !c'.isAt '-' || c'.peek? isVerbose == some ']' || c'.peek? isVerbose == some '-' then
    .ok (← first.setItem, c')
  else
    let c' := c'.advance isVerbose
    if c'.isAtEnd then failPattern .openSet set.extent
    else
      let (last, after) ← c'.readSetPart isVerbose
      let extent : Extent := ⟨first.extent.start, last.extent.stop⟩
      let first ← first.rangeBound
      let last ← last.rangeBound
      if first.char ≤ last.char then .ok (.range extent first last, after)
      else failPattern .backwardRange extent

/-- The operators between the items of a set. -/
def setOperators : List (String × SetOperator) :=
  [("&&", .intersection), ("--", .difference), ("~~", .symmetricDifference)]

/-- Reads an operator between the items of a set, if one stands here. -/
def readSetOperator? (c : Cursor) : Option (SetOperator × Cursor) :=
  setOperators.findSome? fun (text, operator) =>
    (c.afterText? text).map fun after => (operator, after)

/-- Reads what is left of a set that stands in the sets `outer`, the innermost first. Each round
reads one character at least, so `fuel` need not be more than there are characters left. -/
def readSetRest (isVerbose : Bool) : Nat → List OpenSet → OpenSet → Cursor →
    Except PatternFault (SetPhrase × Cursor)
  | 0, _, set, _ => failPattern .openSet set.extent
  | fuel + 1, outer, set, c => do
    let c := c.skip isVerbose
    if c.isAtEnd then failPattern .openSet set.extent
    else if c.isAt '[' then
      match c.readNamedSet? with
      | some (item, after) => readSetRest isVerbose fuel outer (set.push item) after
      | none =>
        let (inner, after) ← c.readSetOpening isVerbose
        readSetRest isVerbose fuel (set :: outer) inner after
    else if c.isAt ']' then
      let closed := set.close c.next.mark
      match outer with
      | [] => .ok (closed, c.next)
      | next :: outer => readSetRest isVerbose fuel outer (next.push closed) c.next
    else
      match c.readSetOperator? with
      | some (operator, after) =>
        readSetRest isVerbose fuel outer (set.pushOperator operator after.mark) after
      | none =>
        let (item, after) ← c.readSetItem isVerbose set
        readSetRest isVerbose fuel outer (set.push item) after

/-- Reads a set in brackets, from its opening bracket on. -/
def readSet (isVerbose : Bool) (c : Cursor) : Except PatternFault (SetPhrase × Cursor) := do
  let (set, after) ← c.readSetOpening isVerbose
  readSetRest isVerbose (after.rest.length + 1) [] set after

end Cursor

end Lox
