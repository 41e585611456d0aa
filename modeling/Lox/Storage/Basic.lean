import Lox.Utf8

/-!
# Storage

What can be read by path. A `Storage` answers every path with bytes or with the reason why there are
none, and says nothing of how it is kept.
-/

set_option autoImplicit false

namespace Lox

/-- Why a path cannot be read. -/
inductive AccessFault where
  /-- The path holds the character NUL. -/
  | nulInPath
  | nameTooLong
  | notFound
  /-- Something that is no directory stands where the path goes on. -/
  | notADirectory
  | isADirectory
  /-- Any other reason, in the words of the storage. -/
  | other (reason : String)
  deriving DecidableEq, Repr

def AccessFault.message : AccessFault → String
  | nulInPath => "file name contained an unexpected NUL byte"
  | nameTooLong => "File name too long (os error 36)"
  | notFound => "No such file or directory (os error 2)"
  | notADirectory => "Not a directory (os error 20)"
  | isADirectory => "Is a directory (os error 21)"
  | other reason => reason

/-- The reason that a system gives by a number, and in words of its own. -/
def AccessFault.ofSystem (number : Nat) (words : String) : AccessFault :=
  match number with
  | 2 => notFound
  | 20 => notADirectory
  | 21 => isADirectory
  | 36 => nameTooLong
  | _ => other (words.capitalize ++ " (os error " ++ toString number ++ ")")

/-- What reading gives, for every path. -/
def Storage : Type :=
  String → Except AccessFault (List UInt8)

/-- A storage in which nothing is found. -/
def Storage.empty : Storage :=
  fun _ => .error .notFound

end Lox
