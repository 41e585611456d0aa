import Lox.Command.Failure
import Lox.Prompt
import Lox.Scan
import Lox.SourcePath
import Lox.Storage.Basic

/-!
# From a source to its listing

The steps of a run that can fail, each with its `Failure`: choosing the one path, reading the file,
reading at the prompt, scanning without errors.
-/

set_option autoImplicit false

namespace Lox

/-- The path among the arguments, of which there may be one at most. -/
def solePath : List String → Except Failure (Option String)
  | [] => .ok none
  | [path] => .ok (some path)
  | _ => .error .usage

theorem solePath_eq_ok_iff {paths : List String} {path : Option String} :
    solePath paths = .ok path ↔ paths = path.toList := by
  constructor
  · intro h
    match paths, h with
    | [], rfl => rfl
    | [_], rfl => rfl
  · rintro rfl
    cases path <;> rfl

/-- What has to be looked at to get a source. -/
inductive Need where
  | nothing
  /-- What is typed at the prompt. -/
  | prompt
  /-- The file at a path. -/
  | file (path : String)
  deriving DecidableEq, Repr

/-- What a run with the given paths needs. One whose paths are refused needs nothing. -/
def needOf (paths : List String) : Need :=
  match solePath paths with
  | .ok none => .prompt
  | .ok (some path) => if isSourcePath path then .file path else .nothing
  | .error _ => .nothing

theorem needOf_singleton (path : String) :
    needOf [path] = if isSourcePath path then .file path else .nothing := rfl

/-- The file at a path is needed if it is the only path and is not refused. -/
theorem needOf_eq_file_iff {paths : List String} {path : String} :
    needOf paths = .file path ↔ paths = [path] ∧ isSourcePath path = true := by
  constructor
  · intro h
    unfold needOf at h
    split at h
    next => cases h
    next hsole =>
      split at h
      next gate =>
        cases h
        exact ⟨solePath_eq_ok_iff.1 hsole, gate⟩
      next => cases h
    next => cases h
  · rintro ⟨rfl, gate⟩
    rw [needOf_singleton, if_pos gate]

/-- Reads the source at a path. A path that is none of a source is refused before anything is
read. -/
def fileSource (storage : Storage) (path : String) : Except Failure String :=
  if isSourcePath path then
    match storage path with
    | .error fault => .error (.unreadable path fault.message)
    | .ok bytes =>
      match decodeUtf8? bytes with
      | some source => .ok source
      | none => .error (.unreadable path notUtf8Message)
  else .error .usage

/-- A storage is asked for nothing but the path, and not even for that if the path is refused. -/
theorem fileSource_congr {storage storage' : Storage} {path : String}
    (h : isSourcePath path = true → storage path = storage' path) :
    fileSource storage path = fileSource storage' path := by
  unfold fileSource
  split
  next gate => rw [h gate]
  next => rfl

/-- Reads a source at the prompt; the tape is the output with the prompts written. -/
def promptSource (input : Prompt.Input) (output : Tape) : Except Failure String × Tape :=
  match Prompt.dialogue input output with
  | (.ok source, output) => (.ok source, output)
  | (.error fault, output) => (.error (.prompt fault.message), output)

/-- The tokens of a scan that found no error. -/
def Scan.checked (s : Scan) : Except Failure (List Token) :=
  if s.errors.isEmpty then .ok s.tokens else .error (.lexical s.errors.length)

/-- The listing of a source that has no error. -/
def listingOf (format : Format) (source : String) : Except Failure String :=
  (scan source).checked.map (listing format)

end Lox
