import Lox.CharClass
import Lox.Pattern.Fault

/-!
# Reading a written pattern

A cursor stands before a character of a written pattern and knows its place. In a verbose pattern,
white space and comments are passed over wherever a part may begin (`Cursor.skip`).
-/

set_option autoImplicit false

namespace Lox

/-- A place in a written pattern and what follows it. -/
structure Cursor where
  rest : List Char
  mark : Mark
  deriving DecidableEq, Repr

namespace Cursor

def ofText (text : List Char) : Cursor := ⟨text, .start⟩

/-- The cursor after the next character. -/
def next (c : Cursor) : Cursor :=
  match c.rest with
  | [] => c
  | x :: rest => ⟨rest, c.mark.after x⟩

/-- The cursor after a number of characters. -/
def move (c : Cursor) (count : Nat) : Cursor :=
  count.repeat next c

/-- The empty extent here. -/
def here (c : Cursor) : Extent := ⟨c.mark, c.mark⟩

/-- The extent of the next character. -/
def ofNext (c : Cursor) : Extent := ⟨c.mark, c.next.mark⟩

/-- What was read since `start`. -/
def since (c : Cursor) (start : Mark) : Extent := ⟨start, c.mark⟩

/-- The cursor after a text, if that follows. -/
def afterText? (c : Cursor) (text : String) : Option Cursor :=
  if text.toList.isPrefixOf c.rest then some (c.move text.length) else none

/-- Whether a character follows. -/
def isAt (c : Cursor) (x : Char) : Bool := c.rest.head? == some x

def isAtEnd (c : Cursor) : Bool := c.rest.isEmpty

/-! ## Verbose patterns -/

/-- Passes over white space and over comments, which end with their line. -/
def skipFrom (inComment : Bool) (mark : Mark) : List Char → Cursor
  | [] => ⟨[], mark⟩
  | x :: rest =>
    if inComment then skipFrom (x != '\n') (mark.after x) rest
    else if isBlank x then skipFrom false (mark.after x) rest
    else if x = '#' then skipFrom true (mark.after x) rest
    else ⟨x :: rest, mark⟩

/-- In a verbose pattern, the cursor after white space and comments. -/
def skip (isVerbose : Bool) (c : Cursor) : Cursor :=
  if isVerbose then skipFrom false c.mark c.rest else c

/-- The cursor after the next character and what is passed over after it. -/
def advance (isVerbose : Bool) (c : Cursor) : Cursor := c.next.skip isVerbose

theorem length_skipFrom_le (inComment : Bool) (mark : Mark) (text : List Char) :
    (skipFrom inComment mark text).rest.length ≤ text.length := by
  induction text generalizing inComment mark with
  | nil => simp [skipFrom]
  | cons x rest ih =>
    unfold skipFrom
    split
    · exact Nat.le_succ_of_le (ih _ _)
    · split
      · exact Nat.le_succ_of_le (ih _ _)
      · split
        · exact Nat.le_succ_of_le (ih _ _)
        · exact Nat.le_refl _

theorem length_skip_le (isVerbose : Bool) (c : Cursor) :
    (c.skip isVerbose).rest.length ≤ c.rest.length := by
  unfold skip
  split
  · exact length_skipFrom_le _ _ _
  · exact Nat.le_refl _

theorem length_advance_lt (isVerbose : Bool) {c : Cursor} {x : Char} {rest : List Char}
    (h : c.rest = x :: rest) : (c.advance isVerbose).rest.length < c.rest.length := by
  have h' : c.next.rest = rest := by simp [next, h]
  have := length_skip_le isVerbose c.next
  unfold advance
  simp only [h, List.length_cons]
  rw [h'] at this
  omega

/-- The characters from here on that pass a test, and the cursor after them. In a verbose pattern
what is passed over may stand after each. -/
def takeWhile (isVerbose : Bool) (test : Char → Bool) (c : Cursor) : List Char × Cursor :=
  match _h : c.rest with
  | [] => ([], c)
  | x :: _ =>
    if test x then
      let (taken, after) := (c.advance isVerbose).takeWhile isVerbose test
      (x :: taken, after)
    else ([], c)
termination_by c.rest.length
decreasing_by exact length_advance_lt isVerbose _h

/-- The character after the next one, where a range may go on. In a verbose pattern white space
before it is passed over, and the sign of a comment. -/
def peek? (isVerbose : Bool) (c : Cursor) : Option Char :=
  let rest := c.rest.drop 1
  if isVerbose then
    let afterBlanks := rest.dropWhile isBlank
    let afterSign :=
      if afterBlanks.head? = some '#' then (afterBlanks.drop 1).dropWhile isBlank else afterBlanks
    if afterSign.isEmpty then rest.head? else afterSign.head?
  else rest.head?

end Cursor

end Lox
