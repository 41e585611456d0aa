import Lox.Pattern.CharSet
import Std.Data.HashSet

/-!
# Patterns

A pattern stands for texts; what it asks at a place of a text, such as the start of a line, hangs on
the characters on both sides of the place (`Spot`). `Pattern.occursIn` says whether a text has a
part that a pattern stands for. It reads the text once and keeps what is left of the pattern after
each start (`Pattern.after`): what is left is never more than the parts of the pattern.
-/

set_option autoImplicit false

namespace Lox

/-! ## Places -/

/-- A place in a text: the characters before and after it. -/
structure Spot where
  before : Option Char
  after : Option Char

/-- Where a place stands to a word. -/
inductive WordPlace where
  /-- At one end of a word. -/
  | boundary
  | noBoundary
  | start
  | stop
  /-- Where no word goes on to the left. -/
  | startHalf
  /-- Where no word goes on to the right. -/
  | stopHalf
  deriving DecidableEq, Hashable, Repr

/-- What may be asked of a place in a text. -/
inductive Place where
  | textStart
  | textEnd
  /-- The start of a line; lines may also end with a carriage return. -/
  | lineStart (withReturn : Bool)
  /-- The end of a line; lines may also end with a carriage return. -/
  | lineEnd (withReturn : Bool)
  /-- A place beside a word, of ASCII letters or of those of all scripts. -/
  | word (ofAllScripts : Bool) (place : WordPlace)
  deriving DecidableEq, Hashable, Repr

/-- Whether a place stands so to the words of ASCII letters, digits and underscores. -/
def WordPlace.holds (spot : Spot) (place : WordPlace) : Bool :=
  let isBefore := spot.before.any CharSet.asciiWord.contains
  let isAfter := spot.after.any CharSet.asciiWord.contains
  match place with
  | boundary => isBefore != isAfter
  | noBoundary => isBefore == isAfter
  | start => !isBefore && isAfter
  | stop => isBefore && !isAfter
  | startHalf => !isBefore
  | stopHalf => !isAfter

/-- Whether a place is as asked. Words are those of ASCII letters: a pattern that asks for words of
all scripts is not made. -/
def Place.holds (spot : Spot) : Place → Bool
  | textStart => spot.before.isNone
  | textEnd => spot.after.isNone
  | lineStart withReturn =>
    spot.before.isNone || spot.before == some '\n'
      || (withReturn && spot.before == some '\r' && spot.after != some '\n')
  | lineEnd false => spot.after.isNone || spot.after == some '\n'
  | lineEnd true =>
    spot.after.isNone || spot.after == some '\r'
      || (spot.after == some '\n' && spot.before != some '\r')
  | word _ place => place.holds spot

/-! ## Patterns -/

inductive Pattern where
  /-- The empty text. -/
  | empty
  /-- A text of one character. -/
  | one (set : CharSet)
  /-- The empty text, at some places. -/
  | place (place : Place)
  /-- A pattern whose text is remembered. -/
  | group (body : Pattern)
  | seq (first second : Pattern)
  | alt (first second : Pattern)
  /-- A pattern some times in a row: at least `least` times, and at most `most` times. -/
  | repeated (least : Nat) (most : Option Nat) (body : Pattern)
  deriving DecidableEq, Hashable, Repr

namespace Pattern

/-- One pattern after another, without needless parts. -/
def andThen (first second : Pattern) : Pattern :=
  if first = empty then second else if second = empty then first else seq first second

/-- Patterns one after another. -/
def sequence (patterns : List Pattern) : Pattern :=
  patterns.foldr andThen empty

/-- One of two patterns; sets of characters are joined. -/
def orElse (first second : Pattern) : Pattern :=
  match first, second with
  | one s, one t => one (s.union t)
  | first, second => alt first second

/-- One of some patterns; none is the pattern of no text. -/
def choice : List Pattern → Pattern
  | [] => one .empty
  | [p] => p
  | p :: patterns => p.orElse (choice patterns)

/-- Whether all texts of a pattern are empty. -/
def isBlank : Pattern → Bool
  | empty | place _ => true
  | one _ => false
  | group body => body.isBlank
  | seq first second | alt first second => first.isBlank && second.isBlank
  | repeated _ _ body => body.isBlank

/-- A pattern some times in a row. To repeat empty texts more than once is of no use. -/
def times (least : Nat) (most : Option Nat) (body : Pattern) : Pattern :=
  let least := if body.isBlank then min least 1 else least
  let most := if body.isBlank then some (min (most.getD 1) 1) else most
  if least = 0 ∧ most = some 0 then empty
  else if least = 1 ∧ most = some 1 then body
  else repeated least most body

/-- Whether a pattern asks for words of all scripts. -/
def asksAllScripts : Pattern → Bool
  | place (.word ofAllScripts _) => ofAllScripts
  | place _ | empty | one _ => false
  | group body => body.asksAllScripts
  | seq first second | alt first second => first.asksAllScripts || second.asksAllScripts
  | repeated _ _ body => body.asksAllScripts

/-! ## Occurrence in a text -/

/-- Whether the empty text at a place is a text of the pattern. -/
def acceptsEmpty (spot : Spot) : Pattern → Bool
  | empty => true
  | one _ => false
  | place p => p.holds spot
  | group body => body.acceptsEmpty spot
  | seq first second => first.acceptsEmpty spot && second.acceptsEmpty spot
  | alt first second => first.acceptsEmpty spot || second.acceptsEmpty spot
  | repeated least _ body => least == 0 || body.acceptsEmpty spot

/-- What is left of a pattern after a character that stands behind a place: one of the patterns in
the list. If the repeated pattern accepts the empty text here, any number of the times that are left
may have been spent on it. -/
def after (spot : Spot) (c : Char) : Pattern → List Pattern
  | empty | place _ => []
  | one set => if set.contains c then [empty] else []
  | group body => body.after spot c
  | seq first second =>
    let left := (first.after spot c).map fun p => p.andThen second
    if first.acceptsEmpty spot then left ++ second.after spot c else left
  | alt first second => first.after spot c ++ second.after spot c
  | repeated least most body =>
    let least := if body.acceptsEmpty spot then 0 else least - 1
    if most = some 0 then []
    else (body.after spot c).map fun p => p.andThen (times least (most.map (· - 1)) body)

/-- Patterns, each of them once. -/
def distinct : List Pattern → List Pattern
  | [] => []
  | [p] => [p]
  | patterns => (Std.HashSet.ofList patterns).toList

@[simp] theorem mem_distinct {p : Pattern} {patterns : List Pattern} :
    p ∈ distinct patterns ↔ p ∈ patterns := by
  unfold distinct
  split
  · exact Iff.rfl
  · exact Iff.rfl
  · simp [Std.HashSet.mem_toList, Std.HashSet.mem_ofList]

/-- Whether one of the patterns in `left` stands for a text that begins here, or the pattern itself
for a part of the text that begins here or later. The character before is `before`. -/
def occursFrom (p : Pattern) (before : Option Char) (left : List Pattern) : List Char → Bool
  | [] => (p :: left).any fun q => q.acceptsEmpty ⟨before, none⟩
  | c :: text =>
    let spot : Spot := ⟨before, some c⟩
    (p :: left).any (fun q => q.acceptsEmpty spot)
      || p.occursFrom (some c) (distinct ((p :: left).flatMap fun q => q.after spot c)) text

/-- Whether a part of the text is a text of the pattern. -/
def occursIn (p : Pattern) (text : List Char) : Bool :=
  p.occursFrom none [] text

end Pattern

end Lox
