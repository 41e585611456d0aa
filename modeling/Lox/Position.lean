import Lox.Utf8

/-!
# Positions in a source text

A position is the number of bytes before it, in the text's UTF-8 form, and the number of its line,
counted from one. Passing over a text moves it by that text's bytes and line feeds, whatever the
text is and however it is divided (`Position.advance_append`).
-/

set_option autoImplicit false

namespace Lox

/-- A place between two characters of a source text. -/
structure Position where
  offset : Nat
  line : Nat
  deriving DecidableEq, Repr

namespace Position

/-- The place before the first character. -/
def start : Position := ⟨0, 1⟩

/-- The place after a text that begins at `p`. -/
def advance (p : Position) (text : List Char) : Position :=
  ⟨p.offset + utf8Length text, p.line + text.count '\n'⟩

@[simp] theorem advance_nil (p : Position) : p.advance [] = p := rfl

theorem advance_append (p : Position) (s t : List Char) :
    p.advance (s ++ t) = (p.advance s).advance t := by
  simp [advance, Nat.add_assoc]

end Position

end Lox
