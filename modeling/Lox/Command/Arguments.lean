import Lox.Listing

/-!
# Command-line arguments

What the words after the program's name ask for. Options of the whole program (`-v`, `-h`, `-V`)
come before the name of an action, those of the action (`-v`, `-h`, for `tokens` also `--format`)
and the paths after it, in any order; after `--` every word is a path.

An option whose value is the next word is settled late: only once the words go on to something else
is its value looked at, so an unknown option further on is found before a bad value.
-/

set_option autoImplicit false

namespace Lox

/-! ## Requests -/

/-- What is done with a source. -/
inductive Action where
  | tokens (format : Format)
  | check
  deriving DecidableEq, Repr

/-- A request to do something with the sources at some paths. -/
structure Invocation where
  verbose : Nat
  action : Action
  paths : List String
  deriving DecidableEq, Repr

/-- Why arguments are no request: they ask about the program itself, or they are wrong. -/
inductive Refusal where
  | help
  | version
  /-- Nothing at all is asked for. -/
  | helpForMissingAction
  | missingAction
  | unknownAction
  | unknownOption
  | invalidValue
  | unneededValue
  | repeatedOption
  deriving DecidableEq, Repr

/-- Questions about the program itself are not wrong. -/
def Refusal.exitStatus : Refusal → Nat
  | help | version => 0
  | _ => 2

namespace Arguments

/-! ## Words -/

/-- What a word looks like. -/
inductive Word where
  /-- The word `--`. -/
  | separator
  /-- The word `--name` or `--name=value`. -/
  | long (name : String) (value : Option String)
  /-- A minus sign before one letter or more. -/
  | short (letters : List Char)
  /-- Anything else, a lone minus sign and the empty word among it. -/
  | plain (text : String)
  deriving DecidableEq, Repr

def Word.ofString (word : String) : Word :=
  match word.toList with
  | ['-', '-'] => separator
  | '-' :: '-' :: text =>
    let name := String.ofList (text.takeWhile (· ≠ '='))
    match text.dropWhile (· ≠ '=') with
    | [] => long name none
    | _ :: value => long name (some (String.ofList value))
  | '-' :: c :: letters => short (c :: letters)
  | _ => plain word

/-! ## Options -/

/-- The options that can be given in one place, besides `verbose` and `help`. -/
structure Scope where
  version : Bool
  format : Bool

/-- Before the action. -/
def Scope.program : Scope := ⟨true, false⟩

def Scope.tokens : Scope := ⟨false, true⟩

def Scope.check : Scope := ⟨false, false⟩

/-- What was read so far in one place. -/
structure Progress where
  verbose : Nat
  format : Option Format
  /-- An option for the format that is not settled, with its value if there was one. -/
  unsettled : Option (Option String)
  /-- The paths, the latest first. -/
  paths : List String
  deriving DecidableEq, Repr

namespace Progress

def start : Progress := ⟨0, none, none, []⟩

/-- The most that is counted of an option. -/
def maxCount : Nat := 255

/-- Takes a value for the format, which may be given once. -/
def setFormat (p : Progress) (value : String) : Except Refusal Progress :=
  if p.format.isSome then .error .repeatedOption
  else
    match Format.ofName? value with
    | some format => .ok { p with format := some format }
    | none => .error .invalidValue

/-- Settles an option that is not settled. -/
def settle (p : Progress) : Except Refusal Progress :=
  match p.unsettled with
  | none => .ok p
  | some none => .error .invalidValue
  | some (some value) => { p with unsettled := none }.setFormat value

/-- Counts one more `verbose`. -/
def countVerbose (p : Progress) : Except Refusal Progress := do
  let p ← p.settle
  return { p with verbose := min maxCount (p.verbose + 1) }

/-- Ends with a question about the program. -/
def ask (p : Progress) (question : Refusal) : Except Refusal Progress := do
  let _ ← p.settle
  .error question

/-- One letter of a word of letters. -/
def letter (scope : Scope) (p : Progress) (c : Char) : Except Refusal Progress :=
  if c = 'v' then p.countVerbose
  else if c = 'h' then p.ask .help
  else if c = 'V' ∧ scope.version then p.ask .version
  else .error .unknownOption

/-- An option by its full name. -/
def long (scope : Scope) (p : Progress) (name : String) (value : Option String) :
    Except Refusal Progress :=
  if name = "format" ∧ scope.format then do
    let p ← p.settle
    match value with
    | some value => p.setFormat value
    | none => return { p with unsettled := some none }
  else if name = "verbose" then
    if value.isSome then .error .unneededValue else p.countVerbose
  else if name = "help" then
    if value.isSome then .error .unneededValue else p.ask .help
  else if name = "version" ∧ scope.version then
    if value.isSome then .error .unneededValue else p.ask .version
  else .error .unknownOption

/-- One more path. -/
def path (p : Progress) (text : String) : Except Refusal Progress := do
  let p ← p.settle
  return { p with paths := text :: p.paths }

/-- A word that is no option: the value that an option waits for, or a path. -/
def plain (p : Progress) (text : String) : Except Refusal Progress :=
  if p.unsettled = some none then .ok { p with unsettled := some (some text) } else p.path text

end Progress

/-! ## Words after the action -/

/-- Reads the words after an action. -/
def readAction (scope : Scope) (p : Progress) : List String → Except Refusal Progress
  | [] => p.settle
  | word :: words =>
    match Word.ofString word with
    | .separator => do (← words.foldlM Progress.path p).settle
    | .long name value => do readAction scope (← p.long scope name value) words
    | .short letters => do readAction scope (← letters.foldlM (Progress.letter scope) p) words
    | .plain text => do readAction scope (← p.plain text) words

/-- Reads the request for an action; its own count of `verbose` goes before that of the program. -/
def readInvocation (scope : Scope) (action : Progress → Action) (verbose : Nat)
    (words : List String) : Except Refusal Invocation := do
  let p ← readAction scope .start words
  return ⟨if p.verbose = 0 then verbose else p.verbose, action p, p.paths.reverse⟩

/-! ## All words -/

/-- The names of actions, and `help`, which explains them. -/
def actionNames : List String := ["tokens", "check", "help"]

/-- Answers `help` and the words after it: they may name one action. -/
def readHelp (words : List String) : Refusal :=
  match words with
  | [] => .help
  | [word] => if word ∈ actionNames then .help else .unknownAction
  | _ => .unknownAction

/-- What is wrong if no action was named. -/
def missingAction (p : Progress) : Refusal :=
  if p.verbose = 0 then .helpForMissingAction else .missingAction

/-- Reads words from the beginning. -/
def read (p : Progress) : List String → Except Refusal Invocation
  | [] => .error (missingAction p)
  | word :: words =>
    match Word.ofString word with
    | .separator =>
      match words with
      | [] => .error (missingAction p)
      | next :: _ => .error (if next ∈ actionNames then .unknownOption else .unknownAction)
    | .long name value => do read (← p.long .program name value) words
    | .short letters => do read (← letters.foldlM (Progress.letter .program) p) words
    | .plain text =>
      if text = "tokens" then
        readInvocation .tokens (fun q => .tokens (q.format.getD .text)) p.verbose words
      else if text = "check" then readInvocation .check (fun _ => .check) p.verbose words
      else if text = "help" then .error (readHelp words)
      else .error .unknownAction

/-- Reads the words after the program's name. -/
def parse (words : List String) : Except Refusal Invocation :=
  read .start words

end Arguments

end Lox
