/-!
# Sets of characters

A set is kept as ranges of character numbers in rising order, with a gap between any two, so that
equal sets have equal ranges.
-/

set_option autoImplicit false

namespace Lox

/-- The characters with the numbers from `first` to `last`. -/
structure CharRange where
  first : Nat
  last : Nat
  deriving DecidableEq, Hashable, Repr

/-- A set of characters, as ranges in rising order with gaps between them. -/
structure CharSet where
  ranges : List CharRange
  deriving DecidableEq, Hashable, Repr

namespace CharRange

/-- Adds a range to ranges in rising order; it absorbs all that it touches. -/
def insertInto (r : CharRange) : List CharRange → List CharRange
  | [] => [r]
  | s :: ranges =>
    if r.last + 1 < s.first then r :: s :: ranges
    else if s.last + 1 < r.first then s :: insertInto r ranges
    else insertInto ⟨min r.first s.first, max r.last s.last⟩ ranges

/-- What lies between ranges in rising order, from a number on. -/
def gapsFrom (first : Nat) : List CharRange → List CharRange
  | [] => if first ≤ 0x10ffff then [⟨first, 0x10ffff⟩] else []
  | r :: ranges =>
    if first < r.first then ⟨first, r.first - 1⟩ :: gapsFrom (r.last + 1) ranges
    else gapsFrom (r.last + 1) ranges

end CharRange

namespace CharSet

def empty : CharSet := ⟨[]⟩

def ofRanges (ranges : List (Char × Char)) : CharSet :=
  ⟨ranges.foldl (fun all r => CharRange.insertInto ⟨r.1.toNat, r.2.toNat⟩ all) []⟩

def ofChar (c : Char) : CharSet := ofRanges [(c, c)]

/-- Whether a character is in a set. -/
def contains (s : CharSet) (c : Char) : Bool :=
  s.ranges.any fun r => r.first ≤ c.toNat && c.toNat ≤ r.last

def isEmpty (s : CharSet) : Bool := s.ranges.isEmpty

/-- Whether all characters of a set take one byte. -/
def isAscii (s : CharSet) : Bool :=
  s.ranges.all fun r => r.last ≤ 0x7f

/-- The only character of a set. -/
def single? (s : CharSet) : Option Char :=
  match s.ranges with
  | [r] => if r.first = r.last then some (Char.ofNat r.first) else none
  | _ => none

def union (s t : CharSet) : CharSet :=
  ⟨t.ranges.foldl (fun all r => r.insertInto all) s.ranges⟩

/-- The characters that are not in a set. -/
def complement (s : CharSet) : CharSet :=
  ⟨CharRange.gapsFrom 0 s.ranges⟩

def intersection (s t : CharSet) : CharSet :=
  (s.complement.union t.complement).complement

def difference (s t : CharSet) : CharSet :=
  (s.complement.union t).complement

/-- The characters that are in one of two sets and not in the other. -/
def symmetricDifference (s t : CharSet) : CharSet :=
  (s.union t).difference (s.intersection t)

def asciiUpper : CharSet := ofRanges [('A', 'Z')]

def asciiLower : CharSet := ofRanges [('a', 'z')]

def asciiDigit : CharSet := ofRanges [('0', '9')]

/-- The characters of words: letters, digits and the underscore. -/
def asciiWord : CharSet := ofRanges [('0', '9'), ('A', 'Z'), ('_', '_'), ('a', 'z')]

def asciiSpace : CharSet := ofRanges [('\t', '\r'), (' ', ' ')]

/-- A set with the letters of ASCII in both cases. -/
def withBothCases (s : CharSet) : CharSet :=
  let upper := (s.intersection asciiUpper).ranges
  let lower := (s.intersection asciiLower).ranges
  (s.union ⟨upper.map fun r => ⟨r.first + 32, r.last + 32⟩⟩).union
    ⟨lower.map fun r => ⟨r.first - 32, r.last - 32⟩⟩

/-- The sets of ASCII characters that have names. -/
def named : List (String × CharSet) :=
  [("alnum", ofRanges [('0', '9'), ('A', 'Z'), ('a', 'z')]),
    ("alpha", ofRanges [('A', 'Z'), ('a', 'z')]),
    ("ascii", ofRanges [('\x00', '\x7f')]),
    ("blank", ofRanges [('\t', '\t'), (' ', ' ')]),
    ("cntrl", ofRanges [('\x00', '\x1f'), ('\x7f', '\x7f')]),
    ("digit", asciiDigit),
    ("graph", ofRanges [('!', '~')]),
    ("lower", asciiLower),
    ("print", ofRanges [(' ', '~')]),
    ("punct", ofRanges [('!', '/'), (':', '@'), ('[', '\x60'), ('\x7b', '~')]),
    ("space", asciiSpace),
    ("upper", asciiUpper),
    ("word", asciiWord),
    ("xdigit", ofRanges [('0', '9'), ('A', 'F'), ('a', 'f')])]

/-- The set of ASCII characters that a name stands for. -/
def ofName? (name : List Char) : Option CharSet :=
  (named.find? fun entry => entry.1.toList == name).map (·.2)

end CharSet

end Lox
