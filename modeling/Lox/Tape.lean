/-!
# Tapes

A tape collects the texts written to it and may refuse any of them; a refused text leaves no trace
but that the attempt counts.
-/

set_option autoImplicit false

namespace Lox

/-- A place for text. `refusal n` is the reason why the attempt to write that comes after `n` others
fails, if it does. -/
structure Tape where
  text : String
  attempts : Nat
  refusal : Nat → Option String

namespace Tape

/-- An empty tape whose attempts fail as the schedule says. -/
def scheduled (refusal : Nat → Option String) : Tape := ⟨"", 0, refusal⟩

/-- An empty tape that takes everything. -/
def endless : Tape := scheduled fun _ => none

/-- An empty tape that takes the first `n` texts and refuses all others for the same reason. -/
def limited (n : Nat) (reason : String) : Tape :=
  scheduled fun i => if i < n then none else some reason

/-- The same tape, but from now on it refuses everything. -/
def broken (t : Tape) (reason : String) : Tape := { t with refusal := fun _ => some reason }

/-- The same tape, but from now on it takes everything. -/
def mended (t : Tape) : Tape := { t with refusal := fun _ => none }

/-- Tries to write a text; the answer is the reason why the tape refused it, if it did. -/
def write (t : Tape) (text : String) : Option String × Tape :=
  match t.refusal t.attempts with
  | none => (none, { t with text := t.text ++ text, attempts := t.attempts + 1 })
  | some reason => (some reason, { t with attempts := t.attempts + 1 })

end Tape

end Lox
