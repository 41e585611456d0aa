import Lox.Pattern.Basic
import Lox.Pattern.Fault

/-!
# Written patterns

A written pattern taken apart: a `Phrase`, with sets of characters in brackets as a `SetPhrase`.
Each part knows where it stands, so that a part that stands for nothing can be pointed out.
-/

set_option autoImplicit false

namespace Lox

/-! ## Parts -/

/-- A character that stands for itself; `isByte` if it is written as a byte with two digits. -/
structure LiteralPart where
  extent : Extent
  char : Char
  isByte : Bool
  deriving DecidableEq, Repr

/-- The sets of characters that have a letter. -/
inductive ShortSet where
  | digit
  | space
  | word
  deriving DecidableEq, Repr

structure ShortPart where
  extent : Extent
  set : ShortSet
  isNegated : Bool
  deriving DecidableEq, Repr

/-- The characters with a property, which has a name of its own or is a named value. -/
structure PropertyPart where
  extent : Extent
  name : List Char
  isNegated : Bool
  deriving DecidableEq, Repr

/-- What may be asked of a place, as it is written. -/
inductive PlaceName where
  | lineStart
  | lineEnd
  | textStart
  | textEnd
  | word (place : WordPlace)
  deriving DecidableEq, Repr

/-! ## Sets in brackets -/

inductive SetOperator where
  | intersection
  | difference
  | symmetricDifference
  deriving DecidableEq, Repr

inductive SetPhrase where
  | nothing (extent : Extent)
  | literal (part : LiteralPart)
  | range (extent : Extent) (first last : LiteralPart)
  /-- A set of ASCII characters that has a name. -/
  | named (extent : Extent) (set : CharSet) (isNegated : Bool)
  | short (part : ShortPart)
  | property (part : PropertyPart)
  | bracketed (extent : Extent) (isNegated : Bool) (body : SetPhrase)
  | union (extent : Extent) (items : List SetPhrase)
  | operation (extent : Extent) (operator : SetOperator) (left right : SetPhrase)

namespace SetPhrase

def extent : SetPhrase → Extent
  | nothing e | range e _ _ | named e _ _ | bracketed e _ _ | union e _ | operation e _ _ _ => e
  | literal part => part.extent
  | short part => part.extent
  | property part => part.extent

/-- Several items as one phrase, the latest first; of none it is known where they would begin. -/
def ofItems (start : Mark) : List SetPhrase → SetPhrase
  | [] => nothing ⟨start, start⟩
  | [item] => item
  | last :: items =>
    let all := (last :: items).reverse
    union ⟨((all.head?.map extent).getD last.extent).start, last.extent.stop⟩ all

end SetPhrase

/-! ## Phrases -/

/-- A way to read a pattern that can be set in it. -/
inductive PatternFlag where
  | ignoreCase
  | multiLine
  | dotAll
  | swapGreed
  | unicode
  | withReturn
  | verbose
  deriving DecidableEq, Repr

/-- One sign of a setting: the negation turns off all flags that follow. -/
inductive FlagSign where
  | negation
  | flag (f : PatternFlag)
  deriving DecidableEq, Repr

/-- What signs set a flag to, if it is among them. -/
def FlagSign.settingOf (f : PatternFlag) (value : Bool) : List FlagSign → Option Bool
  | [] => none
  | negation :: signs => settingOf f false signs
  | flag g :: signs => if g = f then some value else settingOf f value signs

inductive Phrase where
  | empty (extent : Extent)
  /-- Flags for what follows in the same group. -/
  | flags (extent : Extent) (signs : List FlagSign)
  | literal (part : LiteralPart)
  | dot (extent : Extent)
  | place (extent : Extent) (name : PlaceName)
  | short (part : ShortPart)
  | property (part : PropertyPart)
  | set (body : SetPhrase)
  | repetition (extent : Extent) (least : Nat) (most : Option Nat) (body : Phrase)
  /-- A group, with flags for what is in it. -/
  | group (extent : Extent) (signs : List FlagSign) (isRemembered : Bool) (body : Phrase)
  | sequence (extent : Extent) (parts : List Phrase)
  | choice (extent : Extent) (parts : List Phrase)

namespace Phrase

def extent : Phrase → Extent
  | empty e | flags e _ | dot e | place e _ | repetition e _ _ _ | group e _ _ _ | sequence e _
  | choice e _ => e
  | literal part => part.extent
  | short part => part.extent
  | property part => part.extent
  | set body => body.extent

/-- Parts one after another, the latest first, in an extent. -/
def ofParts (extent : Extent) : List Phrase → Phrase
  | [] => empty extent
  | [part] => part
  | parts => sequence extent parts.reverse

end Phrase

/-! ## Depth -/

/-- A part with others in it is one level deep; below the last level none may stand. -/
def enterLevel (extent : Extent) (inner : Nat → Option Extent) : Nat → Option Extent
  | 0 => some extent
  | levels + 1 => inner levels

mutual

/-- The first part of a set that lies deeper than `levels` levels. -/
def SetPhrase.tooDeep? : SetPhrase → Nat → Option Extent
  | .bracketed e _ body => enterLevel e body.tooDeep?
  | .union e items => enterLevel e (SetPhrase.tooDeepIn? items)
  | .operation e _ left right =>
    enterLevel e fun levels => (left.tooDeep? levels).or (right.tooDeep? levels)
  | _ => fun _ => none

/-- The first part of some sets that lies deeper than `levels` levels. -/
def SetPhrase.tooDeepIn? : List SetPhrase → Nat → Option Extent
  | [], _ => none
  | item :: items, levels => (item.tooDeep? levels).or (SetPhrase.tooDeepIn? items levels)

end

mutual

/-- The first part of a phrase that lies deeper than `levels` levels. -/
def Phrase.tooDeep? : Phrase → Nat → Option Extent
  | .set body => body.tooDeep?
  | .repetition e _ _ body => enterLevel e body.tooDeep?
  | .group e _ _ body => enterLevel e body.tooDeep?
  | .sequence e parts => enterLevel e (Phrase.tooDeepIn? parts)
  | .choice e parts => enterLevel e (Phrase.tooDeepIn? parts)
  | _ => fun _ => none

/-- The first part of some phrases that lies deeper than `levels` levels. -/
def Phrase.tooDeepIn? : List Phrase → Nat → Option Extent
  | [], _ => none
  | part :: parts, levels => (part.tooDeep? levels).or (Phrase.tooDeepIn? parts levels)

end

/-- How deep the parts of a written pattern may lie. -/
def Phrase.depthLimit : Nat := 250

end Lox
