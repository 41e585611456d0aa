/-!
# Paths of sources

A path is a text of components with slashes between them. Empty components and components that are a
single point change nothing and are left out, wherever they stand. `isSourcePath` is the gate that
every path of a source must pass: its last component is a stem, which is not empty, and `.lox`.
-/

set_option autoImplicit false

namespace Lox

/-- Whether a component counts. -/
def isComponent (name : List Char) : Bool :=
  !name.isEmpty && name != ['.']

/-- The components of a path that count. -/
def pathComponents (path : List Char) : List (List Char) :=
  (path.splitOn '/').filter isComponent

/-- What the last component of a source's path ends with. -/
def sourceExtension : List Char := ".lox".toList

/-- Whether a name is a stem and the extension of sources. -/
def isSourceName (name : List Char) : Bool :=
  sourceExtension.isSuffixOf name && sourceExtension.length < name.length

/-- Whether a path may be the path of a source. -/
def isSourcePath (path : String) : Bool :=
  match (pathComponents path.toList).getLast? with
  | some name => isSourceName name
  | none => false

end Lox
