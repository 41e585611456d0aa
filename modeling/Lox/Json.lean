import Lox.Token

/-!
# JSON

The JSON texts of tokens and their parts. A `JsonLayout` says where lines end and how deep they are
indented; the members and their order are the same in every layout.
-/

set_option autoImplicit false

namespace Lox

/-! ## Texts and layouts -/

namespace Json

/-- A character inside quotes. The quote, the backslash and the control characters are escaped, and
nothing else. -/
def escape (c : Char) : List Char :=
  if c = '"' then ['\\', '"']
  else if c = '\\' then ['\\', '\\']
  else if c = '\x08' then ['\\', 'b']
  else if c = '\t' then ['\\', 't']
  else if c = '\n' then ['\\', 'n']
  else if c = '\x0c' then ['\\', 'f']
  else if c = '\r' then ['\\', 'r']
  else if c.toNat < 32 then
    ['\\', 'u', '0', '0', Nat.digitChar (c.toNat / 16), Nat.digitChar (c.toNat % 16)]
  else [c]

/-- A text in quotes. -/
def quoted (text : String) : String :=
  "\"" ++ String.ofList (text.toList.flatMap escape) ++ "\""

end Json

/-- Where the items of an array or object stand. -/
structure JsonLayout where
  /-- What comes before an item at a given depth. -/
  lineStart : Nat → String
  /-- What comes between the name of a member and its value. -/
  colon : String

namespace JsonLayout

/-- Everything on one line, without spaces. -/
def compact : JsonLayout where
  lineStart := fun _ => ""
  colon := ":"

/-- One item on a line, indented by two spaces for each level. -/
def pretty : JsonLayout where
  lineStart := fun depth => "\n" ++ String.ofList (List.replicate (2 * depth) ' ')
  colon := ": "

/-- Items between two brackets; without items the brackets meet. -/
def enclosed (layout : JsonLayout) (opening closing : String) (depth : Nat)
    (items : List String) : String :=
  if items.isEmpty then opening ++ closing
  else
    opening ++ ",".intercalate (items.map (layout.lineStart (depth + 1) ++ ·))
      ++ layout.lineStart depth ++ closing

/-- An array whose brackets stand at the given depth. -/
def array (layout : JsonLayout) (depth : Nat) (items : List String) : String :=
  layout.enclosed "[" "]" depth items

/-- An object whose braces stand at the given depth. -/
def object (layout : JsonLayout) (depth : Nat) (members : List (String × String)) : String :=
  layout.enclosed "\x7b" "\x7d" depth
    (members.map fun (name, value) => Json.quoted name ++ layout.colon ++ value)

end JsonLayout

/-! ## Tokens -/

/-- In JSON numbers stand around a point from `0.00001` to below `10 ^ 16`, a positive exponent has
a plus sign, and a tie goes to the even digit. -/
def Binary64.jsonStyle : NumeralStyle where
  tie := .even
  leastPositional := -5
  leastLarge := 16
  plusSign := ['+']

/-- JSON has no numeral for a number that is not finite: it is `null`. -/
def Binary64.json (x : Binary64) : String :=
  if x.isFinite then String.ofList (jsonStyle.finite x) else "null"

def Literal.json : Literal → String
  | absent => "null"
  | string s => Json.quoted s
  | number x => x.json

def Kind.json (k : Kind) : String :=
  Json.quoted k.name

def Span.json (layout : JsonLayout) (depth : Nat) (s : Span) : String :=
  layout.object depth [("start", toString s.start), ("end", toString s.stop)]

def Token.json (layout : JsonLayout) (depth : Nat) (t : Token) : String :=
  layout.object depth
    [("kind", t.kind.json),
      ("lexeme", Json.quoted t.lexeme),
      ("literal", t.literal.json),
      ("line", toString t.line),
      ("span", t.span.json layout (depth + 1))]

end Lox
