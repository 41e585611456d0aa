import Lox.Command.Arguments
import Lox.Command.Source
import Lox.Log.Filter
import Lox.Log.Line

/-!
# Runs of the command

A run reads a source, scans it, and lists its tokens or only says that it is in order. `run` gives
all that can be seen of it: the exit status and what is written to the two outputs.
-/

set_option autoImplicit false

namespace Lox

/-- All that a run can look at, besides its arguments. -/
structure Surroundings where
  storage : Storage
  /-- What is typed at the prompt. -/
  input : Prompt.Input
  /-- The written form of a log filter, if one is set. -/
  logSpec : Option String

/-- What is left of surroundings if only what is needed for a source is looked at. -/
def Surroundings.seen (around : Surroundings) (need : Need) : Surroundings :=
  match need with
  | .nothing => ⟨.empty, .empty, around.logSpec⟩
  | .prompt => ⟨.empty, around.input, around.logSpec⟩
  | .file path => ⟨fun _ => around.storage path, .empty, around.logSpec⟩

/-- All that can be seen of a run. -/
structure Report where
  exitStatus : Nat
  /-- The prompts, which come first on the standard output. -/
  prompts : String
  /-- The rest of the standard output. -/
  listing : String
  /-- The standard error output. -/
  messages : String
  deriving DecidableEq, Repr

/-- The standard output of a run. -/
def Report.output (r : Report) : String :=
  r.prompts ++ r.listing

/-! ## The log -/

/-- The level of the log that a count of `verbose` asks for. -/
def verboseLevel : Nat → LogLevel
  | 0 => .warn
  | 1 => .debug
  | _ => .trace

/-- The filter of a run, and the warnings about its written form. -/
def runFilter (verbose : Nat) (logSpec : Option String) : LogFilter × List String :=
  match logSpec with
  | none => (.ofLevel (verboseLevel verbose), [])
  | some text => (LogFilter.ofLevel (verboseLevel verbose)).parse text

/-! ## Notes -/

/-- What is noted while a run goes on: a record of its log, or an error of the source. -/
inductive Note where
  | record (r : LogRecord)
  | error (d : Diagnostic)
  deriving DecidableEq, Repr

namespace Note

def record? : Note → Option LogRecord
  | record r => some r
  | error _ => none

def error? : Note → Option Diagnostic
  | record _ => none
  | error d => some d

/-- A note as it is written. -/
def line : Note → String
  | record r => r.line
  | error d => d.consoleLine

/-- Notes as they are written, one after the other. -/
def lines (notes : List Note) : String :=
  String.join (notes.map line)

theorem lines_nil : lines [] = "" := rfl

end Note

/-- A record is noted if the filter lets it through. -/
def LogFilter.emit (filter : LogFilter) (record : LogRecord) : List Note :=
  if filter.admits record then [.record record] else []

/-- A record of the command itself. -/
def commandRecord (message : String) : LogRecord :=
  ⟨.debug, LogRecord.commandTarget, message⟩

/-- What is noted of an event: its record, and then its error. -/
def Event.notes (filter : LogFilter) (e : Event) : List Note :=
  filter.emit e.logRecord ++ (e.diagnostic?.map Note.error).toList

/-- What is noted of a scan. -/
def Scan.notes (filter : LogFilter) (s : Scan) : List Note :=
  s.events.flatMap (Event.notes filter) ++ filter.emit s.summary

/-! ## The two parts of a run -/

/-- The source, the prompts and the notes of the first part of a run. -/
structure Obtained where
  source : Except Failure String
  prompts : String
  notes : List Note

/-- Reads the source from the one path, or at the prompt if there is none. -/
def obtain (filter : LogFilter) (around : Surroundings) : Option String → Obtained
  | none =>
    let (source, output) := promptSource around.input .endless
    ⟨source, output.text, []⟩
  | some path =>
    ⟨fileSource around.storage path, "",
      if isSourcePath path then filter.emit (commandRecord ("reading " ++ path)) else []⟩

/-- What is said of the end of a run that fails; errors of the source have been told already. -/
def Failure.messages : Failure → String
  | lexical _ => ""
  | failure => failure.message ++ "\n"

/-- How the source is called when all is well with it. -/
def sourceName (path : Option String) : String :=
  path.getD "<stdin>"

/-- What is done with the tokens of a source without errors: the listing and the messages. -/
def Action.perform (filter : LogFilter) (path : Option String) (tokens : List Token) :
    Action → String × String
  | .tokens format => (listing format tokens, "")
  | .check =>
    ("", Note.lines (filter.emit (commandRecord (toString tokens.length ++ " tokens")))
      ++ "OK: " ++ sourceName path ++ "\n")

/-- The second part of a run, after the first left prompts and notes. -/
def finish (filter : LogFilter) (action : Action) (path : Option String) (before : Obtained) :
    Report :=
  match before.source with
  | .error failure =>
    ⟨failure.exitStatus, before.prompts, "", Note.lines before.notes ++ failure.messages⟩
  | .ok source =>
    let s := scan source
    let messages := Note.lines (before.notes ++ s.notes filter)
    match s.checked with
    | .error failure => ⟨failure.exitStatus, before.prompts, "", messages ++ failure.messages⟩
    | .ok tokens =>
      let (listing, more) := action.perform filter path tokens
      ⟨0, before.prompts, listing, messages ++ more⟩

/-- A whole run. -/
def run (around : Surroundings) (request : Invocation) : Report :=
  let (filter, faults) := runFilter request.verbose around.logSpec
  let warnings := String.join (faults.map LogFilter.warningLine)
  match solePath request.paths with
  | .error failure => ⟨failure.exitStatus, "", "", warnings ++ failure.messages⟩
  | .ok path =>
    let report := finish filter request.action path (obtain filter around path)
    { report with messages := warnings ++ report.messages }

/-! ## What a run looks at -/

theorem Surroundings.seen_logSpec (around : Surroundings) (need : Need) :
    (around.seen need).logSpec = around.logSpec := by
  cases need <;> rfl

/-- The source is found in what the paths need. -/
theorem obtain_seen (filter : LogFilter) (around : Surroundings) (path : Option String) :
    obtain filter (around.seen (needOf path.toList)) path = obtain filter around path := by
  cases path with
  | none => rfl
  | some path =>
    have hsource : fileSource (around.seen (needOf [path])).storage path
        = fileSource around.storage path := by
      refine fileSource_congr fun gate => ?_
      rw [needOf_singleton, if_pos gate]
      rfl
    exact congrArg (fun source => Obtained.mk source _ _) hsource

/-- A run looks at nothing but what its paths need. -/
theorem run_seen (around : Surroundings) (request : Invocation) :
    run (around.seen (needOf request.paths)) request = run around request := by
  unfold run
  rw [around.seen_logSpec]
  cases hpath : solePath request.paths with
  | error failure => rfl
  | ok path =>
    rw [solePath_eq_ok_iff.1 hpath]
    simp only [obtain_seen]

end Lox
