import Lox.Tape
import Lox.Utf8

/-!
# Reading a source at the prompt

A source is typed line by line. Before each line a prompt is written; an empty line, or the end of
the input, ends the source. Of every line the carriage returns and line feeds at its end are taken
off and one line feed is put back. Reading can fail too, and then the lines before are of no use.
-/

set_option autoImplicit false

namespace Lox

namespace Prompt

/-- What is written before each line. -/
def text : String := "> "

/-- What can go wrong at the prompt. -/
inductive Fault where
  /-- The prompt could not be written, for the reason given. -/
  | brokenOutput (reason : String)
  /-- No line could be read, for the reason given. -/
  | brokenInput (reason : String)
  /-- A line is not text. -/
  | notUtf8
  deriving DecidableEq, Repr

def Fault.message : Fault → String
  | brokenOutput reason | brokenInput reason => reason
  | notUtf8 => notUtf8Message

/-! ## Inputs -/

/-- The bytes that can be read, and the reason why reading fails behind them. Without a reason the
input ends there. -/
structure Input where
  bytes : List UInt8
  failure : Option String
  deriving DecidableEq, Repr

/-- Bytes on their own are an input that ends. -/
instance : Coe (List UInt8) Input := ⟨fun bytes => ⟨bytes, none⟩⟩

namespace Input

def empty : Input := ⟨[], none⟩

/-- The bytes that can be taken line by line: a line that is begun when reading fails is lost. -/
def readable (input : Input) : List UInt8 :=
  match input.failure with
  | none => input.bytes
  | some _ => (input.bytes.reverse.dropWhile (· ≠ 10)).reverse

end Input

/-! ## Lines -/

/-- The lines of an input, added to those found, the latest first. The bytes of the line that is
being cut come before the rest of the input, again the latest first. -/
def linesAfter (found : List (List UInt8)) (begun : List UInt8) :
    List UInt8 → List (List UInt8)
  | [] => (if begun.isEmpty then found else begun.reverse :: found).reverse
  | b :: bytes =>
    if b = 10 then linesAfter ((b :: begun).reverse :: found) [] bytes
    else linesAfter found (b :: begun) bytes

/-- The lines of an input: each ends with its line feed, but the last may lack one. -/
def lines (bytes : List UInt8) : List (List UInt8) :=
  linesAfter [] [] bytes

/-- Lines found before stay in front. -/
theorem linesAfter_eq (found : List (List UInt8)) (begun bytes : List UInt8) :
    linesAfter found begun bytes = found.reverse ++ linesAfter [] begun bytes := by
  induction bytes generalizing found begun with
  | nil =>
    unfold linesAfter
    split <;> simp
  | cons b bytes ih =>
    unfold linesAfter
    split
    · rw [ih, ih [_]]
      simp
    · rw [ih]

def isLineEnd (c : Char) : Bool :=
  c == '\n' || c == '\r'

/-- A text without the carriage returns and line feeds at its end. -/
def stripEnd (line : List Char) : List Char :=
  (line.reverse.dropWhile isLineEnd).reverse

/-- What a line that was typed means. -/
inductive Reply where
  /-- The line goes into the source. -/
  | keep (line : List Char)
  /-- The line is empty and ends the source. -/
  | stop
  /-- The line is not text. -/
  | malformed
  deriving DecidableEq, Repr

def Reply.ofLine (line : List UInt8) : Reply :=
  match decodeUtf8? line with
  | none => malformed
  | some s =>
    let stripped := stripEnd s.toList
    if stripped.isEmpty then stop else keep stripped

/-! ## The dialogue -/

/-- The source that kept lines make up; they come the latest first. -/
def sourceOf (kept : List (List Char)) : String :=
  String.ofList (kept.reverse.flatMap fun line => line ++ ['\n'])

/-- What comes of the dialogue when no line is left to take. -/
def ending (failure : Option String) (kept : List (List Char)) : Except Fault String :=
  match failure with
  | none => .ok (sourceOf kept)
  | some reason => .error (.brokenInput reason)

/-- Goes on with the dialogue: writes a prompt, takes a line, and looks no further once a line ends
the source or is no text. -/
def converse (failure : Option String) (output : Tape) (kept : List (List Char))
    (lines : List (List UInt8)) : Except Fault String × Tape :=
  match output.write text with
  | (some reason, output) => (.error (.brokenOutput reason), output)
  | (none, output) =>
    match lines with
    | [] => (ending failure kept, output)
    | line :: lines =>
      match Reply.ofLine line with
      | .keep stripped => converse failure output (stripped :: kept) lines
      | .stop => (.ok (sourceOf kept), output)
      | .malformed => (.error .notUtf8, output)

/-- Reads a source from an input, and gives the output with the prompts that were written. -/
def dialogue (input : Input) (output : Tape) : Except Fault String × Tape :=
  converse input.failure output [] (lines input.readable)

end Prompt

end Lox
