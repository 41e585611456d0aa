import Lox.Pattern.Bracket

/-!
# Reading written patterns

A pattern is read from left to right, group by group (`Phrase.read`). An open group is kept with
what was read before it; the reader goes on there when the group is closed.
-/

set_option autoImplicit false

namespace Lox

/-! ## State -/

/-- What is read of a group: branches with bars between them. -/
structure Branches where
  /-- Where the first branch begins. -/
  first : Mark
  /-- The branches before the last bar, the latest first. -/
  done : List Phrase
  /-- Where the last branch begins. -/
  start : Mark
  /-- The parts of the last branch, the latest first. -/
  parts : List Phrase

namespace Branches

def startingAt (m : Mark) : Branches := ⟨m, [], m, []⟩

def push (b : Branches) (part : Phrase) : Branches :=
  { b with parts := part :: b.parts }

/-- The last branch, if it ends at a place. -/
def lastBranch (b : Branches) (stop : Mark) : Phrase :=
  Phrase.ofParts ⟨b.start, stop⟩ b.parts

/-- Goes on after a bar. -/
def bar (b : Branches) (stop after : Mark) : Branches :=
  { b with done := b.lastBranch stop :: b.done, start := after, parts := [] }

/-- All branches as one phrase. -/
def phrase (b : Branches) (stop : Mark) : Phrase :=
  match b.done with
  | [] => b.lastBranch stop
  | done => .choice ⟨b.first, stop⟩ (b.lastBranch stop :: done).reverse

end Branches

/-- A group that is not yet closed. -/
structure OpenGroup where
  /-- The opening parenthesis. -/
  extent : Extent
  signs : List FlagSign
  isRemembered : Bool
  /-- What was read before the group. -/
  before : Branches
  /-- Whether the pattern before the group is verbose. -/
  wasVerbose : Bool

/-- The reader of a pattern. -/
structure PatternReader where
  cursor : Cursor
  isVerbose : Bool
  /-- The names of groups, and where they are. -/
  names : List (List Char × Extent)
  /-- The open groups, the innermost first. -/
  groups : List OpenGroup
  branches : Branches

namespace Cursor

/-! ## Repetition -/

/-- The greatest count of a repetition. -/
def countLimit : Nat := 4294967295

/-- Reads a count; white space may stand around it. -/
def readCount (isVerbose : Bool) (c : Cursor) : Except PatternFault Nat × Cursor :=
  let (_, first) := c.takeWhile isVerbose isBlank
  let (digits, last) := first.takeWhile isVerbose Char.isDigit
  let (_, after) := last.takeWhile isVerbose isBlank
  let count := digits.foldl (fun n d => 10 * n + (d.toNat - '0'.toNat)) 0
  if digits.isEmpty then (failPattern .noCount (last.since first.mark), after)
  else if countLimit < count then (failPattern .countTooLarge (last.since first.mark), after)
  else (.ok count, after)

/-- Reads the counts of a repetition, from the opening brace on. That a count is missing or too
large is a fault only if its brace is closed or a second count follows. -/
def readCounts (isVerbose : Bool) (c : Cursor) :
    Except PatternFault (Nat × Option Nat × Cursor) := do
  let first := c.advance isVerbose
  if first.isAtEnd then failPattern .openCount (first.since c.mark)
  else
    let (least, after) := first.readCount isVerbose
    if after.isAtEnd then failPattern .openCount (after.since c.mark)
    else if after.isAt ',' then
      let second := after.advance isVerbose
      if second.isAtEnd then failPattern .openCount (second.since c.mark)
      else if second.isAt '\x7d' then .ok (← least, none, second)
      else
        let least ← least
        let (most, after) := second.readCount isVerbose
        .ok (least, some (← most), after)
    else
      let least ← least
      .ok (least, some least, after)

/-- Passes over a question mark. It tells whether few repetitions are looked for before many, which
makes no difference to whether there is an occurrence. -/
def skipQuestion (c : Cursor) : Cursor := if c.isAt '?' then c.next else c

/-! ## Groups -/

/-- The flag that a letter stands for. -/
def flagOf? (letter : Char) : Option PatternFlag :=
  if letter = 'i' then some .ignoreCase
  else if letter = 'm' then some .multiLine
  else if letter = 's' then some .dotAll
  else if letter = 'U' then some .swapGreed
  else if letter = 'u' then some .unicode
  else if letter = 'R' then some .withReturn
  else if letter = 'x' then some .verbose
  else none

/-- Reads the signs of flags; those that were read are kept with their places, the latest first. -/
def readSignsFrom (mark : Mark) (read : List (FlagSign × Extent)) : List Char →
    Except PatternFault (List FlagSign × Cursor)
  | [] => failPattern .flagEnd ⟨mark, mark⟩
  | x :: rest =>
    let extent : Extent := ⟨mark, mark.after x⟩
    let push (sign : FlagSign) (cause : PatternCause) : Except PatternFault (FlagSign × Extent) :=
      match read.find? fun entry => entry.1 == sign with
      | some entry => .error ⟨cause, extent, some entry.2⟩
      | none => .ok (sign, extent)
    if x = ':' ∨ x = ')' then
      match read with
      | (.negation, e) :: _ => failPattern .negationEnd e
      | _ => .ok ((read.map (·.1)).reverse, ⟨x :: rest, mark⟩)
    else if x = '-' then do
      let entry ← push .negation .repeatedNegation
      readSignsFrom (mark.after x) (entry :: read) rest
    else
      match flagOf? x with
      | none => failPattern .unknownFlag extent
      | some f => do
        let entry ← push (.flag f) .repeatedFlag
        readSignsFrom (mark.after x) (entry :: read) rest

/-- Whether a character may stand in the name of a group. -/
def isNameCharacter (c : Char) : Bool :=
  c == '_' || c == '.' || c == '[' || c == ']' || isLetter c || isNumeral c

/-- Reads the name of a group and the angle after it. -/
def readName (c : Cursor) : Except PatternFault (List Char × Extent × Cursor) :=
  match c.rest with
  | [] => failPattern .nameEnd c.here
  | x :: _ =>
    if x = '>' then failPattern .noName c.here
    else if x = '_' ∨ isLetter x then
      let (name, last) := c.takeWhile false isNameCharacter
      if last.isAtEnd then failPattern .nameEnd last.here
      else if last.isAt '>' then .ok (name, last.since c.mark, last.next)
      else failPattern .nameCharacter last.ofNext
    else failPattern .nameCharacter c.ofNext

/-- What looks ahead or behind begins so. -/
def lookAroundSigns : List String := ["?=", "?!", "?<=", "?<!"]

/-- What stands before the name of a group. -/
def nameSigns : List String := ["?P<", "?<"]

end Cursor

namespace PatternReader

open Cursor

def ofText (text : List Char) : PatternReader :=
  ⟨.ofText text, false, [], [], .startingAt .start⟩

/-- Goes on after a part. -/
def push (r : PatternReader) (part : Phrase) (after : Cursor) : PatternReader :=
  { r with cursor := after, branches := r.branches.push part }

/-! ## Steps -/

/-- Goes on in a group. -/
def openGroup (r : PatternReader) (signs : List FlagSign) (isRemembered : Bool) (after : Cursor) :
    PatternReader :=
  { r with
    cursor := after
    isVerbose := (FlagSign.settingOf .verbose true signs).getD r.isVerbose
    groups := ⟨r.cursor.ofNext, signs, isRemembered, r.branches, r.isVerbose⟩ :: r.groups
    branches := .startingAt after.mark }

/-- Reads the start of a group, or flags for what follows in this one. -/
def readOpening (r : PatternReader) : Except PatternFault PatternReader :=
  let extent := r.cursor.ofNext
  let first := r.cursor.advance r.isVerbose
  match lookAroundSigns.findSome? first.afterText?, nameSigns.findSome? first.afterText? with
  | some after, _ => failPattern .lookAround (after.since extent.start)
  | none, some after => do
    let (name, place, after) ← after.readName
    match r.names.find? fun entry => entry.1 == name with
    | some entry => .error ⟨.repeatedName, place, some entry.2⟩
    | none => .ok { r.openGroup [] true after with names := (name, place) :: r.names }
  | none, none =>
    if first.isAt '?' then
      if first.next.isAtEnd then failPattern .openGroup extent
      else do
        let (signs, last) ← readSignsFrom first.next.mark [] first.next.rest
        if last.isAt ':' then .ok (r.openGroup signs false last.next)
        else if signs.isEmpty then failPattern .nothingToRepeat first.here
        else
          let r := r.push (.flags (last.next.since extent.start) signs) last.next
          .ok { r with isVerbose := (FlagSign.settingOf .verbose true signs).getD r.isVerbose }
    else .ok (r.openGroup [] true first)

/-- Reads the end of a group. -/
def readClosing (r : PatternReader) : Except PatternFault PatternReader :=
  match r.groups with
  | [] => failPattern .noGroup r.cursor.ofNext
  | g :: groups =>
    let after := r.cursor.next
    let body := r.branches.phrase r.cursor.mark
    let part : Phrase := .group ⟨g.extent.start, after.mark⟩ g.signs g.isRemembered body
    .ok
      { r with
        cursor := after
        isVerbose := g.wasVerbose
        groups := groups
        branches := g.before.push part }

/-- The part that was read last, and those before it. Flags cannot be repeated. -/
def lastPart (r : PatternReader) : Except PatternFault (Phrase × List Phrase) :=
  match r.branches.parts with
  | [] | .empty _ :: _ | .flags _ _ :: _ => failPattern .nothingToRepeat r.cursor.here
  | part :: parts => .ok (part, parts)

/-- Goes on after the repetition of a part. -/
def pushRepetition (r : PatternReader) (last : Phrase × List Phrase) (least : Nat)
    (most : Option Nat) (after : Cursor) : PatternReader :=
  let repetition : Phrase := .repetition ⟨last.1.extent.start, after.mark⟩ least most last.1
  { r with cursor := after, branches := { r.branches with parts := repetition :: last.2 } }

/-- Reads a sign of repetition. -/
def readRepetition (r : PatternReader) (least : Nat) (most : Option Nat) :
    Except PatternFault PatternReader := do
  .ok (r.pushRepetition (← r.lastPart) least most r.cursor.next.skipQuestion)

/-- Reads a repetition with counts in braces. -/
def readCounted (r : PatternReader) : Except PatternFault PatternReader := do
  let part ← r.lastPart
  let (least, most, last) ← r.cursor.readCounts r.isVerbose
  if last.isAt '\x7d' then
    let after := (last.advance r.isVerbose).skipQuestion
    if most.any (· < least) then failPattern .backwardCount (after.since r.cursor.mark)
    else .ok (r.pushRepetition part least most after)
  else failPattern .openCount (last.since r.cursor.mark)

/-- Reads what begins with a character. -/
def step (r : PatternReader) (x : Char) : Except PatternFault PatternReader := do
  let c := r.cursor
  if x = '(' then r.readOpening
  else if x = ')' then r.readClosing
  else if x = '|' then
    .ok { r with cursor := c.next, branches := r.branches.bar c.mark c.next.mark }
  else if x = '[' then
    let (set, after) ← c.readSet r.isVerbose
    .ok (r.push (.set set) after)
  else if x = '?' then r.readRepetition 0 (some 1)
  else if x = '*' then r.readRepetition 0 none
  else if x = '+' then r.readRepetition 1 none
  else if x = '\x7b' then r.readCounted
  else if x = '\\' then
    let (part, after) ← c.readEscape r.isVerbose
    .ok (r.push part.phrase after)
  else if x = '.' then .ok (r.push (.dot c.ofNext) c.next)
  else if x = '^' then .ok (r.push (.place c.ofNext .lineStart) c.next)
  else if x = '$' then .ok (r.push (.place c.ofNext .lineEnd) c.next)
  else .ok (r.push (.literal (c.literalHere x)) c.next)

/-- Reads all that is left. Each round reads one character at least, so `fuel` need not be more than
there are characters left. -/
def run : Nat → PatternReader → Except PatternFault Phrase
  | 0, r => .ok (r.branches.phrase r.cursor.mark)
  | fuel + 1, r => do
    let r := { r with cursor := r.cursor.skip r.isVerbose }
    match r.cursor.rest with
    | [] =>
      match r.groups with
      | [] => .ok (r.branches.phrase r.cursor.mark)
      | g :: _ => failPattern .openGroup g.extent
    | x :: _ => run fuel (← r.step x)

end PatternReader

/-- The phrase that a text writes. -/
def Phrase.read (text : List Char) : Except PatternFault Phrase := do
  let phrase ← (PatternReader.ofText text).run (text.length + 1)
  match phrase.tooDeep? depthLimit with
  | some extent => .error ⟨.tooDeep depthLimit, extent, none⟩
  | none => .ok phrase

end Lox
