import Lox.SourcePath
import Lox.Storage.Basic

/-!
# Storage as a tree of directories

A `FileTree` holds files and directories; `FileTree.read` follows a path from the root, one
component after another, and reads what it arrives at. What lies above the root is outside the tree:
there are directories to go up through, but nothing can be found in them.
-/

set_option autoImplicit false

namespace Lox

/-- The name of a file or directory. -/
abbrev FileName := List Char

/-- What is at a place in a tree. -/
inductive FileEntry where
  | file (content : List UInt8)
  | directory
  deriving DecidableEq, Repr

/-- Files and directories. A place is the list of the names that lead to it, the innermost first. -/
structure FileTree where
  entries : List (List FileName × FileEntry)

namespace FileTree

def empty : FileTree := ⟨[]⟩

/-- The place that a path without `..` leads to. -/
def placeOf (path : String) : List FileName :=
  (pathComponents path.toList).reverse

/-- A tree with one more entry, in place of an older one at the same place. -/
def insert (t : FileTree) (path : String) (entry : FileEntry) : FileTree :=
  ⟨(placeOf path, entry) :: t.entries⟩

/-- What is at a place. The places that lead to an entry are directories, and so is the root. -/
def entryAt? (t : FileTree) (place : List FileName) : Option FileEntry :=
  match t.entries.find? fun e => e.1 == place with
  | some e => some e.2
  | none =>
    if place.isEmpty || t.entries.any fun e => place.isSuffixOf e.1 then some .directory else none

/-! ## Following a path -/

/-- The most bytes that a name may have. -/
def maxNameLength : Nat := 255

/-- The most bytes that a path may have. -/
def maxPathLength : Nat := 4095

/-- Where a path has led so far: to a place that exists, or out of the tree. -/
inductive Arrival where
  | inside (place : List FileName)
  | outside
  deriving DecidableEq, Repr

/-- Follows one component of a path. Only a directory can be gone on from. -/
def step (t : FileTree) (here : Arrival) (name : FileName) : Except AccessFault Arrival :=
  match here with
  | .outside =>
    if !isComponent name || name == ['.', '.'] then .ok .outside
    else if maxNameLength < utf8Length name then .error .nameTooLong
    else .error .notFound
  | .inside place =>
    if t.entryAt? place ≠ some .directory then .error .notADirectory
    else if !isComponent name then .ok here
    else if name == ['.', '.'] then .ok (if place.isEmpty then .outside else .inside place.tail)
    else if maxNameLength < utf8Length name then .error .nameTooLong
    else if (t.entryAt? (name :: place)).isSome then .ok (.inside (name :: place))
    else .error .notFound

/-- Follows components of a path one after another. -/
def follow (t : FileTree) (here : Arrival) : List FileName → Except AccessFault Arrival
  | [] => .ok here
  | name :: names =>
    match t.step here name with
    | .ok there => t.follow there names
    | .error fault => .error fault

/-- Follows a whole path: from the root of the tree, or from outside if the path begins with a
slash. -/
def locate (t : FileTree) (path : String) : Except AccessFault Arrival :=
  let text := path.toList
  if '\x00' ∈ text then .error .nulInPath
  else if text.isEmpty then .error .notFound
  else if maxPathLength < utf8Length text then .error .nameTooLong
  else t.follow (if text.head? = some '/' then .outside else .inside []) (text.splitOn '/')

/-- Reads the file that a path leads to. -/
def read (t : FileTree) : Storage := fun path =>
  match t.locate path with
  | .error fault => .error fault
  | .ok .outside => .error .isADirectory
  | .ok (.inside place) =>
    match t.entryAt? place with
    | some (.file content) => .ok content
    | some .directory => .error .isADirectory
    | none => .error .notFound

end FileTree

end Lox
