import Lox.Listing

/-!
# Failures

Everything that ends a run early, with its message and its exit status.
-/

set_option autoImplicit false

namespace Lox

inductive Failure where
  /-- There are several paths, or a path that is none of a source. -/
  | usage
  /-- The file at a path cannot be read as text. -/
  | unreadable (path : String) (reason : String)
  /-- No source can be read at the prompt. -/
  | prompt (reason : String)
  /-- The source has errors, and how many. -/
  | lexical (count : Nat)
  /-- The tokens cannot be put into the format asked for. -/
  | encoding (reason : String)
  /-- The listing cannot be written out. -/
  | writing (reason : String)
  deriving DecidableEq, Repr

namespace Failure

def message : Failure → String
  | usage => "Usage: lox [filename].lox"
  | unreadable path reason => "Error reading " ++ path ++ ": " ++ reason
  | prompt reason => "Error reading input: " ++ reason
  | lexical count => toString count ++ " lexical error(s)"
  | encoding reason => "Error encoding tokens: " ++ reason
  | writing reason => "Error writing tokens: " ++ reason

def exitStatus : Failure → Nat
  | usage => 64
  | lexical _ => 65
  | unreadable .. => 66
  | prompt _ | encoding _ | writing _ => 74

end Failure

end Lox
