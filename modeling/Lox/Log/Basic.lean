import Lox.Scan

/-!
# Log records

A record is a message with a level and the name of the part of the program that it comes from. A
scan leaves one record for every event, in order, and a summary (`Scan.log`).
-/

set_option autoImplicit false

namespace Lox

/-! ## Levels -/

/-- How much is logged, or how little a record matters. No record has the level `off`. -/
inductive LogLevel where
  | off
  | error
  | warn
  | info
  | debug
  | trace
  deriving DecidableEq, Repr

namespace LogLevel

def all : List LogLevel := [off, error, warn, info, debug, trace]

/-- The place of a level among all levels. -/
def rank : LogLevel → Nat
  | off => 0
  | error => 1
  | warn => 2
  | info => 3
  | debug => 4
  | trace => 5

def name : LogLevel → String
  | off => "OFF"
  | error => "ERROR"
  | warn => "WARN"
  | info => "INFO"
  | debug => "DEBUG"
  | trace => "TRACE"

/-- The level that a text names, in upper or lower case. -/
def ofName? (text : List Char) : Option LogLevel :=
  all.find? fun level => level.name.toList == text.map Char.toUpper

/-- Whether a record of level `level` is kept where the level is set to `threshold`. -/
def isWithin (level threshold : LogLevel) : Bool :=
  level.rank ≤ threshold.rank

end LogLevel

/-! ## Records -/

structure LogRecord where
  level : LogLevel
  target : String
  message : String
  deriving DecidableEq, Repr

namespace LogRecord

/-- The target of the records of a scan. -/
def scanTarget : String := "lox_lexer::scanner"

/-- The target of the records of the command. -/
def commandTarget : String := "lox"

end LogRecord

/-! ## The records of a scan -/

/-- The record of an event: a token is a matter of `trace`, a fault of `debug`. -/
def Event.logRecord : Event → LogRecord
  | token t => ⟨.trace, LogRecord.scanTarget, "line " ++ toString t.line ++ ": " ++ t.display⟩
  | fault start cause =>
    ⟨.debug, LogRecord.scanTarget,
      "lexical error at line " ++ toString start.line ++ ": " ++ cause.message⟩

namespace Scan

/-- The last record of a scan: how many tokens there are (with `eof`), lines and errors. -/
def summary (s : Scan) : LogRecord :=
  ⟨.debug, LogRecord.scanTarget,
    "scanned " ++ toString s.tokens.length ++ " tokens over " ++ toString s.stop.line ++ " lines ("
      ++ toString s.errors.length ++ " errors)"⟩

/-- All records of a scan. -/
def log (s : Scan) : List LogRecord :=
  s.events.map Event.logRecord ++ [s.summary]

/-- The records of a scan that are kept at a threshold. -/
def logWithin (s : Scan) (threshold : LogLevel) : List LogRecord :=
  s.log.filter fun r => r.level.isWithin threshold

end Scan

end Lox
