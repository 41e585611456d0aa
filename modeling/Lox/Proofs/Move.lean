import Lox.Proofs.Events

/-!
# Scans that begin elsewhere

Where a text begins moves the places of what a scan finds in it and changes nothing else
(`scanFrom_moveBy`). So the scan of what follows a text is the scan of what follows it alone, moved
by the bytes and the lines of that text (`advance_start`).
-/

set_option autoImplicit false

namespace Lox

/-! ## Moving by bytes and lines -/

def Position.moveBy (p : Position) (bytes lines : Nat) : Position :=
  ⟨p.offset + bytes, p.line + lines⟩

/-- The same token, further on in a source. -/
def Token.moveBy (t : Token) (bytes lines : Nat) : Token :=
  { t with line := t.line + lines, span := ⟨t.span.start + bytes, t.span.stop + bytes⟩ }

/-- The same diagnostic, on a later line. -/
def Diagnostic.moveBy (d : Diagnostic) (lines : Nat) : Diagnostic :=
  { d with line := d.line + lines }

def Event.moveBy (bytes lines : Nat) : Event → Event
  | token t => token (t.moveBy bytes lines)
  | fault start cause => fault (start.moveBy bytes lines) cause

def Scan.moveBy (s : Scan) (bytes lines : Nat) : Scan :=
  ⟨s.events.map (Event.moveBy bytes lines), s.stop.moveBy bytes lines⟩

section

variable (bytes lines : Nat)

theorem Position.advance_moveBy (p : Position) (text : List Char) :
    (p.moveBy bytes lines).advance text = (p.advance text).moveBy bytes lines := by
  simp only [moveBy, advance, Position.mk.injEq]
  omega

theorem tokenAt_moveBy (p : Position) (kind : Kind) (text : List Char) :
    tokenAt (p.moveBy bytes lines) kind text = (tokenAt p kind text).moveBy bytes lines := by
  simp only [tokenAt, Token.moveBy, Position.moveBy, Token.mk.injEq, Span.mk.injEq, true_and]
  omega

theorem Piece.eventAt?_moveBy (p : Position) (x : Piece) :
    x.eventAt? (p.moveBy bytes lines) = (x.eventAt? p).map (Event.moveBy bytes lines) := by
  cases x with
  | lexeme kind text => exact congrArg (fun t => some (Event.token t)) (tokenAt_moveBy ..)
  | _ => rfl

theorem eventsFrom_moveBy (p : Position) (xs : List Piece) :
    eventsFrom (p.moveBy bytes lines) xs = (eventsFrom p xs).map (Event.moveBy bytes lines) := by
  induction xs generalizing p with
  | nil => rfl
  | cons x xs ih =>
    rw [eventsFrom_cons, eventsFrom_cons, Position.advance_moveBy, ih, Piece.eventAt?_moveBy,
      List.map_append]
    cases x.eventAt? p <;> rfl

/-- A scan that begins elsewhere finds the same, moved. -/
theorem scanFrom_moveBy (p : Position) (text : List Char) :
    scanFrom (p.moveBy bytes lines) text = (scanFrom p text).moveBy bytes lines := by
  have hevents := eventsFrom_moveBy bytes lines p (pieces text)
  rw [scanFrom, Position.advance_moveBy]
  exact congrArg (Scan.mk · _) hevents

/-! ## What moves in a scan -/

theorem Event.token?_moveBy (e : Event) :
    (e.moveBy bytes lines).token? = e.token?.map (·.moveBy bytes lines) := by
  cases e <;> rfl

theorem Event.diagnostic?_moveBy (e : Event) :
    (e.moveBy bytes lines).diagnostic? = e.diagnostic?.map (·.moveBy lines) := by
  cases e <;> rfl

theorem Scan.tokens_moveBy (s : Scan) :
    (s.moveBy bytes lines).tokens = s.tokens.map (·.moveBy bytes lines) := by
  have heof : eofAt (s.stop.moveBy bytes lines) = (eofAt s.stop).moveBy bytes lines :=
    tokenAt_moveBy bytes lines s.stop .eof []
  rw [tokens, tokens, moveBy, heof, List.map_append, List.filterMap_map, List.map_filterMap]
  simp only [Function.comp_def, Event.token?_moveBy, List.map_cons, List.map_nil]

theorem Scan.errors_moveBy (s : Scan) :
    (s.moveBy bytes lines).errors = s.errors.map (·.moveBy lines) := by
  rw [errors, errors, moveBy, List.filterMap_map, List.map_filterMap]
  simp only [Function.comp_def, Event.diagnostic?_moveBy]

end

/-- The place after a text is the start, moved by the bytes and the line feeds of that text. -/
theorem advance_start (text : List Char) :
    Position.start.advance text = Position.start.moveBy (utf8Length text) (text.count '\n') :=
  rfl

end Lox
