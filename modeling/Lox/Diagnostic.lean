import Lox.Tape

/-!
# Diagnostics

A diagnostic says what is wrong on which line. A `Reporter` is anything that takes diagnostics one
at a time: `Diagnostics` keeps them, `Console` writes each as a line of text and counts them.
-/

set_option autoImplicit false

namespace Lox

/-- What is wrong, and where. The location is empty or begins with a space. -/
structure Diagnostic where
  line : Nat
  location : String
  message : String
  deriving DecidableEq, Repr

namespace Diagnostic

/-- A diagnostic without a location. -/
def onLine (line : Nat) (message : String) : Diagnostic := ⟨line, "", message⟩

def display (d : Diagnostic) : String :=
  "[line " ++ toString d.line ++ "] Error" ++ d.location ++ ": " ++ d.message

/-- The display of a diagnostic as a line of text. -/
def consoleLine (d : Diagnostic) : String :=
  d.display ++ "\n"

end Diagnostic

/-- What takes diagnostics one at a time. -/
class Reporter (ρ : Type) where
  report : ρ → Diagnostic → ρ

/-! ## Keeping diagnostics -/

/-- The diagnostics reported so far, in order. -/
structure Diagnostics where
  errors : Array Diagnostic
  deriving DecidableEq, Repr

namespace Diagnostics

def empty : Diagnostics := ⟨#[]⟩

def report (ds : Diagnostics) (d : Diagnostic) : Diagnostics := ⟨ds.errors.push d⟩

instance : Reporter Diagnostics := ⟨report⟩

def toList (ds : Diagnostics) : List Diagnostic := ds.errors.toList

def size (ds : Diagnostics) : Nat := ds.errors.size

def isEmpty (ds : Diagnostics) : Bool := ds.size == 0

def hasErrors (ds : Diagnostics) : Bool := !ds.isEmpty

/-- The displays of all diagnostics, with a line feed between two. -/
def display (ds : Diagnostics) : String :=
  "\n".intercalate (ds.toList.map Diagnostic.display)

@[simp] theorem toList_empty : empty.toList = [] := rfl

@[simp] theorem toList_report (ds : Diagnostics) (d : Diagnostic) :
    (ds.report d).toList = ds.toList ++ [d] := by
  simp [report, toList]

end Diagnostics

/-! ## Writing diagnostics -/

/-- A place where each diagnostic is written as a line, and how many there were. -/
structure Console where
  tape : Tape
  reported : Nat

namespace Console

/-- A console that writes to a tape and has reported nothing. -/
def onTape (tape : Tape) : Console := ⟨tape, 0⟩

/-- A diagnostic counts whether or not its line can be written. -/
def report (c : Console) (d : Diagnostic) : Console :=
  ⟨(c.tape.write d.consoleLine).2, c.reported + 1⟩

instance : Reporter Console := ⟨report⟩

def hasErrors (c : Console) : Bool := c.reported != 0

end Console

end Lox
