import Lox.Command.Help
import Lox.Command.Run

/-!
# The command

Collects what a run needs to look at, and writes what can be seen of it. Only the prompts are
written while the run is still going on.
-/

set_option autoImplicit false

namespace Lox

/-- The variable of the environment that holds the written form of a log filter. -/
def logVariable : String := "RUST_LOG"

/-- The number of a fault; some parts of a system count downwards from zero. -/
def faultNumber (code : UInt32) : Nat :=
  if code.toNat < UInt32.size / 2 then code.toNat else UInt32.size - code.toNat

/-- The reason for a fault of the system. -/
def systemFault (fault : IO.Error) : AccessFault :=
  match fault with
  | .noFileOrDirectory _ code details | .interrupted _ code details
  | .alreadyExists _ code details | .invalidArgument _ code details
  | .permissionDenied _ code details | .resourceExhausted _ code details
  | .inappropriateType _ code details | .noSuchThing _ code details
  | .otherError code details | .resourceBusy code details | .resourceVanished code details
  | .unsupportedOperation code details | .hardwareFault code details
  | .unsatisfiedConstraints code details | .illegalOperation code details
  | .protocolError code details | .timeExpired code details =>
    .ofSystem (faultNumber code) details
  | .unexpectedEof | .userError _ => .other (toString fault)

/-- The bytes of one line, its line feed included; there are none at the end of the input. -/
partial def readLine (input : IO.FS.Stream) (begun : ByteArray) : IO ByteArray := do
  let byte ← input.read 1
  let line := begun ++ byte
  if byte.isEmpty || byte.toList == [10] then return line else readLine input line

/-- Writes prompts and takes lines until one ends the source, or none can be read. -/
partial def readLines (input output : IO.FS.Stream) (typed : ByteArray) : IO Prompt.Input := do
  output.putStr Prompt.text
  output.flush
  match ← (readLine input .empty).toBaseIO with
  | .error fault => return ⟨typed.toList, some (systemFault fault).message⟩
  | .ok line =>
    match Prompt.Reply.ofLine line.toList with
    | .keep _ => readLines input output (typed ++ line)
    | _ => return ⟨(typed ++ line).toList, none⟩

/-- Looks at what a request needs. -/
def lookAround (request : Invocation) : IO Surroundings := do
  let logSpec ← IO.getEnv logVariable
  match needOf request.paths with
  | .nothing => return ⟨.empty, .empty, logSpec⟩
  | .prompt =>
    let input ← readLines (← IO.getStdin) (← IO.getStdout) .empty
    return ⟨.empty, input, logSpec⟩
  | .file path =>
    let content ← try pure (.ok (← IO.FS.readBinFile path).toList)
      catch fault => pure (.error (systemFault fault))
    return ⟨fun _ => content, .empty, logSpec⟩

/-- Says that a run failed, and gives its exit status. -/
def fail (failure : Failure) : IO UInt32 := do
  IO.eprint failure.messages
  return UInt32.ofNat failure.exitStatus

/-- Runs a request. -/
def perform (request : Invocation) : IO UInt32 := do
  match ← (lookAround request).toBaseIO with
  | .error fault => fail (.prompt (systemFault fault).message)
  | .ok around =>
    let report := run around request
    IO.eprint report.messages
    match ← (do IO.print report.listing; (← IO.getStdout).flush).toBaseIO with
    | .error fault => fail (.writing (systemFault fault).message)
    | .ok () => return UInt32.ofNat report.exitStatus

end Lox

def main (arguments : List String) : IO UInt32 := do
  match Lox.Arguments.parse arguments with
  | .ok request => Lox.perform request
  | .error refusal =>
    if refusal.exitStatus = 0 then IO.print refusal.text else IO.eprint refusal.text
    return UInt32.ofNat refusal.exitStatus
