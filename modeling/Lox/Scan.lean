import Lox.Diagnostic
import Lox.Piece
import Lox.Position
import Lox.Token

/-!
# Scanning

A scan goes over the pieces of a source and makes an event of each that is not blank: a token for a
lexeme, a fault for what is none. Events keep the order of the source. The tokens of a scan end with
one `eof` token; its faults disturb no token.

`scanInto` hands the faults to a reporter as it meets them; which reporter it is makes no difference
to the tokens (`scanInto_fst`).
-/

set_option autoImplicit false

namespace Lox

/-! ## Pieces in their places -/

/-- The pieces placed so far, the latest first, followed by those still to be placed, the first of
which begins at `p`. -/
def placedAfter (placed : List (Position × Piece)) (p : Position) :
    List Piece → List (Position × Piece)
  | [] => placed.reverse
  | x :: xs => placedAfter ((p, x) :: placed) (p.advance x.text) xs

/-- Consecutive pieces, the first of which begins at `p`, each with the place where it begins. -/
def placedFrom (p : Position) (xs : List Piece) : List (Position × Piece) :=
  placedAfter [] p xs

theorem placedAfter_eq (placed : List (Position × Piece)) (p : Position) (xs : List Piece) :
    placedAfter placed p xs = placed.reverse ++ placedAfter [] p xs := by
  induction xs generalizing placed p with
  | nil => simp [placedAfter]
  | cons x xs ih =>
    rw [placedAfter, placedAfter, ih (_ :: placed), ih [_]]
    simp

@[simp] theorem placedFrom_nil (p : Position) : placedFrom p [] = [] := rfl

@[simp] theorem placedFrom_cons (p : Position) (x : Piece) (xs : List Piece) :
    placedFrom p (x :: xs) = (p, x) :: placedFrom (p.advance x.text) xs := by
  rw [placedFrom, placedAfter, placedAfter_eq]
  rfl

/-! ## Events -/

/-- What can be wrong with a source. -/
inductive LexicalFault where
  | unexpectedCharacter
  | unterminatedString
  deriving DecidableEq, Repr

def LexicalFault.message : LexicalFault → String
  | unexpectedCharacter => "Unexpected character."
  | unterminatedString => "Unterminated string."

/-- What a scan finds: a token, or a fault and the place where the faulty text begins. -/
inductive Event where
  | token (t : Token)
  | fault (start : Position) (cause : LexicalFault)
  deriving DecidableEq, Repr

namespace Event

def token? : Event → Option Token
  | token t => some t
  | fault .. => none

/-- The diagnostic of a fault carries the line on which the faulty text begins. -/
def diagnostic? : Event → Option Diagnostic
  | token _ => none
  | fault start cause => some (.onLine start.line cause.message)

end Event

/-- The value of a lexeme: a string without its quotes, a number to the nearest. -/
def literalOf (kind : Kind) (text : List Char) : Literal :=
  match kind with
  | .string => .string (String.ofList (text.drop 1).dropLast)
  | .number =>
    .number (Decimal.ofDigits (text.takeWhile Char.isDigit)
      ((text.dropWhile Char.isDigit).drop 1)).toBinary64
  | _ => .absent

/-- The token of a lexeme that begins at `p`. -/
def tokenAt (p : Position) (kind : Kind) (text : List Char) : Token where
  kind := kind
  lexeme := String.ofList text
  literal := literalOf kind text
  line := p.line
  span := ⟨p.offset, p.offset + utf8Length text⟩

/-- The token that ends every scan. -/
def eofAt (p : Position) : Token :=
  tokenAt p .eof []

/-- The event of a piece that begins at `p`. -/
def Piece.eventAt? (p : Position) : Piece → Option Event
  | lexeme kind text => some (.token (tokenAt p kind text))
  | blank _ => none
  | stray _ => some (.fault p .unexpectedCharacter)
  | openString _ => some (.fault p .unterminatedString)

/-! ## Scans -/

/-- What is found in a source, and where the source ends. -/
structure Scan where
  events : List Event
  stop : Position
  deriving DecidableEq, Repr

/-- The scan of a text that begins at `p`. -/
def scanFrom (p : Position) (text : List Char) : Scan where
  events := (placedFrom p (pieces text)).filterMap fun (q, x) => x.eventAt? q
  stop := p.advance text

/-- The scan of a whole source. -/
def scan (source : String) : Scan :=
  scanFrom .start source.toList

namespace Scan

/-- The tokens found, and the `eof` token. -/
def tokens (s : Scan) : List Token :=
  s.events.filterMap Event.token? ++ [eofAt s.stop]

/-- The diagnostics of the faults found. -/
def errors (s : Scan) : List Diagnostic :=
  s.events.filterMap Event.diagnostic?

end Scan

/-! ## Scanning for a reporter -/

/-- Tells a reporter of an event; tokens are no concern of it. -/
def reportEvent {ρ : Type} [Reporter ρ] (r : ρ) (e : Event) : ρ :=
  match e.diagnostic? with
  | some d => Reporter.report r d
  | none => r

/-- The tokens of a source, and the reporter after it was told of every fault in order. -/
def scanInto {ρ : Type} [Reporter ρ] (r : ρ) (source : String) : List Token × ρ :=
  let s := scan source
  (s.tokens, s.events.foldl reportEvent r)

/-- The tokens of a source that has no fault, or else its diagnostics. -/
def tokenize (source : String) : Except Diagnostics (List Token) :=
  let (tokens, found) := scanInto Diagnostics.empty source
  if found.hasErrors then .error found else .ok tokens

theorem scanInto_fst {ρ : Type} [Reporter ρ] (r : ρ) (source : String) :
    (scanInto r source).1 = (scan source).tokens := rfl

theorem foldl_reportEvent {ρ : Type} [Reporter ρ] (r : ρ) (events : List Event) :
    events.foldl reportEvent r = (events.filterMap Event.diagnostic?).foldl Reporter.report r := by
  induction events generalizing r with
  | nil => rfl
  | cons e events ih =>
    rw [List.foldl_cons, ih, List.filterMap_cons]
    unfold reportEvent
    cases e.diagnostic? <;> rfl

/-- A reporter is told of exactly the errors of the scan, in order. -/
theorem scanInto_snd {ρ : Type} [Reporter ρ] (r : ρ) (source : String) :
    (scanInto r source).2 = (scan source).errors.foldl Reporter.report r :=
  foldl_reportEvent r _

end Lox
