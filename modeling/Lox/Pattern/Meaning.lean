import Lox.Pattern.Phrase

/-!
# What written patterns stand for

The pattern that a phrase writes (`Phrase.meaning`). Flags say how the parts after them are read.
No table of the characters of all scripts is at hand: with the flag `unicode`, which is set at
first, sets that would need one are faults, and so is reading without regard to case. Without that
flag the parts of a pattern speak of bytes, and a part that could stand for bytes that are no text
is a fault.
-/

set_option autoImplicit false

namespace Lox

/-! ## Flags -/

structure PatternFlags where
  ignoreCase : Bool
  multiLine : Bool
  dotAll : Bool
  unicode : Bool
  withReturn : Bool
  deriving DecidableEq, Repr

namespace PatternFlags

/-- The flags at the start of a pattern. -/
def initial : PatternFlags := ⟨false, false, false, true, false⟩

/-- The flags after signs that set some of them. -/
def set (flags : PatternFlags) (signs : List FlagSign) : PatternFlags :=
  let setting (f : PatternFlag) (old : Bool) : Bool := (FlagSign.settingOf f true signs).getD old
  { ignoreCase := setting .ignoreCase flags.ignoreCase
    multiLine := setting .multiLine flags.multiLine
    dotAll := setting .dotAll flags.dotAll
    unicode := setting .unicode flags.unicode
    withReturn := setting .withReturn flags.withReturn }

end PatternFlags

/-! ## Sets of characters -/

/-- A set, and whether it is known to have all characters in both cases. -/
structure FoldedSet where
  chars : CharSet
  isFolded : Bool

namespace FoldedSet

def empty : FoldedSet := ⟨.empty, true⟩

/-- A set as it is written. -/
def ofChars (chars : CharSet) : FoldedSet := ⟨chars, chars.isEmpty⟩

def union (s t : FoldedSet) : FoldedSet :=
  if t.chars.isEmpty then s
  else ⟨s.chars.union t.chars, s.isFolded && t.isFolded⟩

def intersection (s t : FoldedSet) : FoldedSet :=
  if s.chars.isEmpty then s
  else if t.chars.isEmpty then empty
  else ⟨s.chars.intersection t.chars, s.isFolded && t.isFolded⟩

def difference (s t : FoldedSet) : FoldedSet :=
  if s.chars.isEmpty ∨ t.chars.isEmpty then s
  else ⟨s.chars.difference t.chars, s.isFolded && t.isFolded⟩

def symmetricDifference (s t : FoldedSet) : FoldedSet :=
  (s.union t).difference (s.intersection t)

def complement (s : FoldedSet) : FoldedSet :=
  ⟨s.chars.complement, s.chars.isEmpty || s.isFolded⟩

/-- The set with all characters in both cases. -/
def fold (flags : PatternFlags) (extent : Extent) (s : FoldedSet) :
    Except PatternFault FoldedSet :=
  if !flags.ignoreCase || s.isFolded then .ok s
  else if flags.unicode then failPattern .noCases extent
  else .ok ⟨s.chars.withBothCases, true⟩

/-- A set in brackets. Without the flag `unicode` the set of all other characters is one of bytes
that are no text. -/
def bracketed (flags : PatternFlags) (extent : Extent) (isNegated : Bool) (s : FoldedSet) :
    Except PatternFault FoldedSet := do
  let s ← s.fold flags extent
  if !isNegated then .ok s
  else if flags.unicode then .ok s.complement
  else failPattern .invalidUtf8 extent

def operate (operator : SetOperator) (s t : FoldedSet) : FoldedSet :=
  match operator with
  | .intersection => s.intersection t
  | .difference => s.difference t
  | .symmetricDifference => s.symmetricDifference t

end FoldedSet

/-- The character of a literal. Without the flag `unicode`, one that is written as a byte must be a
character of one byte. -/
def LiteralPart.meaning (flags : PatternFlags) (part : LiteralPart) : Except PatternFault Char :=
  if !flags.unicode && part.isByte && '\x7f' < part.char then failPattern .invalidUtf8 part.extent
  else .ok part.char

/-- The character of a literal in a set. Without the flag `unicode` it must be one byte. -/
def LiteralPart.setMeaning (flags : PatternFlags) (part : LiteralPart) :
    Except PatternFault Char := do
  let c ← part.meaning flags
  if !flags.unicode && '\x7f' < c then failPattern .noUnicode part.extent else .ok c

/-- The ASCII characters of a set that has a letter. -/
def ShortSet.chars : ShortSet → CharSet
  | digit => .asciiDigit
  | space => .asciiSpace
  | word => .asciiWord

def ShortPart.meaning (flags : PatternFlags) (part : ShortPart) : Except PatternFault CharSet :=
  if flags.unicode then failPattern .noShortSets part.extent
  else if part.isNegated then failPattern .invalidUtf8 part.extent
  else .ok part.set.chars

/-- The name of a property in its plain form: without blanks, hyphens and underscores, in lower
case, and without the syllable `is` before it. -/
def PropertyPart.plainName (part : PropertyPart) : List Char :=
  let plain (name : List Char) : List Char :=
    (name.filter fun c => c ≤ '\x7f' && c != ' ' && c != '_' && c != '-').map Char.toLower
  match part.name with
  | x :: y :: name =>
    if x.toLower = 'i' ∧ y.toLower = 's' then
      let name := plain name
      if name = ['c'] then "isc".toList else name
    else plain (x :: y :: name)
  | name => plain name

/-- The names that are those of values of a property in the first place. -/
def PropertyPart.valueNames : List String := ["cf", "sc", "lc"]

/-- No property is known; it is told apart whether the name could be that of a value. -/
def PropertyPart.meaning (flags : PatternFlags) (part : PropertyPart) :
    Except PatternFault CharSet :=
  if !flags.unicode then failPattern .noUnicode part.extent
  else if valueNames.any fun name => name.toList == part.plainName then
    failPattern .unknownPropertyValue part.extent
  else failPattern .unknownProperty part.extent

mutual

/-- The set that a phrase writes. -/
def SetPhrase.meaning (flags : PatternFlags) : SetPhrase → Except PatternFault FoldedSet
  | .nothing _ => .ok .empty
  | .literal part => do .ok (.ofChars (.ofChar (← part.setMeaning flags)))
  | .range _ first last => do
    let first ← first.setMeaning flags
    let last ← last.setMeaning flags
    .ok (.ofChars (.ofRanges [(first, last)]))
  | .named e set isNegated => (FoldedSet.ofChars set).bracketed flags e isNegated
  | .short part => do .ok (.ofChars (← part.meaning flags))
  | .property part => do .ok (.ofChars (← part.meaning flags))
  | .bracketed e isNegated body => do (← body.meaning flags).bracketed flags e isNegated
  | .union _ items => SetPhrase.meaningOfAll flags .empty items
  | .operation _ operator left right => do
    let s ← left.meaning flags
    let t ← right.meaning flags
    let t ← t.fold flags right.extent
    let s ← s.fold flags left.extent
    .ok (.operate operator s t)

/-- The set of the characters of some sets, and of one set beside them. -/
def SetPhrase.meaningOfAll (flags : PatternFlags) (set : FoldedSet) :
    List SetPhrase → Except PatternFault FoldedSet
  | [] => .ok set
  | item :: items => do
    SetPhrase.meaningOfAll flags (set.union (← item.meaning flags)) items

end

/-! ## Patterns -/

/-- A character outside of brackets. -/
def LiteralPart.pattern (flags : PatternFlags) (part : LiteralPart) :
    Except PatternFault Pattern := do
  let c ← part.meaning flags
  if !flags.ignoreCase then .ok (.one (.ofChar c))
  else if flags.unicode then failPattern .noCases part.extent
  else .ok (.one (CharSet.ofChar c).withBothCases)

/-- Any character, or any that does not end a line. -/
def dotPattern (flags : PatternFlags) (extent : Extent) : Except PatternFault Pattern :=
  if !flags.unicode then failPattern .invalidUtf8 extent
  else
    let lineEnds : CharSet :=
      if flags.dotAll then .empty
      else if flags.withReturn then .ofRanges [('\n', '\n'), ('\r', '\r')]
      else .ofChar '\n'
    .ok (.one lineEnds.complement)

/-- What a name asks of a place. -/
def PlaceName.place (flags : PatternFlags) : PlaceName → Place
  | lineStart => if flags.multiLine then .lineStart flags.withReturn else .textStart
  | lineEnd => if flags.multiLine then .lineEnd flags.withReturn else .textEnd
  | textStart => .textStart
  | textEnd => .textEnd
  | word place => .word flags.unicode place

mutual

/-- The pattern that a phrase writes, and the flags after it. -/
def Phrase.meaning (flags : PatternFlags) : Phrase → Except PatternFault (Pattern × PatternFlags)
  | .empty _ => .ok (.empty, flags)
  | .flags _ signs => .ok (.empty, flags.set signs)
  | .literal part => do .ok (← part.pattern flags, flags)
  | .dot e => do .ok (← dotPattern flags e, flags)
  | .place _ name => .ok (.place (name.place flags), flags)
  | .short part => do .ok (.one (← part.meaning flags), flags)
  | .property part => do .ok (.one (← part.meaning flags), flags)
  | .set body => do .ok (.one (← body.meaning flags).chars, flags)
  | .repetition _ least most body => do
    let (p, flags) ← body.meaning flags
    .ok (.times least most p, flags)
  | .group _ signs isRemembered body => do
    let (p, _) ← body.meaning (flags.set signs)
    .ok (if isRemembered then .group p else p, flags)
  | .sequence _ parts => do
    let (patterns, flags) ← Phrase.meaningOfAll flags parts
    .ok (.sequence patterns, flags)
  | .choice _ parts => do
    let (patterns, flags) ← Phrase.meaningOfAll flags parts
    .ok (.choice patterns, flags)

/-- The patterns that some phrases write, one after another, and the flags after them. -/
def Phrase.meaningOfAll (flags : PatternFlags) :
    List Phrase → Except PatternFault (List Pattern × PatternFlags)
  | [] => .ok ([], flags)
  | part :: parts => do
    let (p, flags) ← part.meaning flags
    let (patterns, flags) ← Phrase.meaningOfAll flags parts
    .ok (p :: patterns, flags)

end

end Lox
