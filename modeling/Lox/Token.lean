import Lox.Kind
import Lox.Decimal.Numeral

/-!
# Tokens

A token is a kind, the text it was read from, the value of that text if it has one, the line it
starts on and the bytes it occupies. `Token.display` is its one-record text.
-/

set_option autoImplicit false

namespace Lox

/-! ## Spans -/

/-- The bytes from `start` up to, and not including, `stop`. -/
structure Span where
  start : Nat
  stop : Nat
  deriving DecidableEq, Repr

/-- What can be wrong with a span. -/
inductive SpanFault where
  /-- The span ends before it starts. -/
  | backwards
  deriving DecidableEq, Repr

def SpanFault.message : SpanFault → String
  | .backwards => "attempt to subtract with overflow"

namespace Span

/-- The number of bytes, for a span that does not end before it starts. -/
def length (s : Span) : Except SpanFault Nat :=
  if s.start ≤ s.stop then .ok (s.stop - s.start) else .error .backwards

/-- Whether a span holds no byte. -/
def isEmpty (s : Span) : Bool :=
  s.start = s.stop

theorem length_eq_ok_iff {s : Span} {n : Nat} : s.length = .ok n ↔ s.start + n = s.stop := by
  unfold length
  split
  · rw [Except.ok.injEq]
    omega
  · simp only [reduceCtorEq, false_iff]
    omega

end Span

/-! ## Literals -/

/-- The value that a token carries. -/
inductive Literal where
  | absent
  | string (text : String)
  | number (value : Binary64)
  deriving DecidableEq, Repr

namespace Literal

def isAbsent : Literal → Bool
  | absent => true
  | _ => false

def number? : Literal → Option Binary64
  | number x => some x
  | _ => none

def string? : Literal → Option String
  | string s => some s
  | _ => none

/-- The text of a value: a string stands as it is, without quotes. -/
def display : Literal → String
  | absent => "null"
  | string s => s
  | number x => x.display

/-- Equality of values, in which numbers are compared as numbers and not as bit patterns. -/
def same : Literal → Literal → Bool
  | absent, absent => true
  | string s, string t => s == t
  | number x, number y => x.sameNumber y
  | _, _ => false

end Literal

/-! ## Tokens -/

/-- A piece of source text with its meaning and its place. -/
structure Token where
  kind : Kind
  lexeme : String
  literal : Literal
  line : Nat
  span : Span
  deriving DecidableEq, Repr

namespace Token

def isEof (t : Token) : Bool :=
  t.kind = .eof

/-- The record of a token: kind, text and value, with a space between. -/
def display (t : Token) : String :=
  t.kind.name ++ " " ++ t.lexeme ++ " " ++ t.literal.display

/-- Equality of tokens, field by field, with numbers compared as numbers. -/
def same (t u : Token) : Bool :=
  t.kind = u.kind && t.lexeme == u.lexeme && t.literal.same u.literal && t.line == u.line
    && t.span = u.span

end Token

end Lox
