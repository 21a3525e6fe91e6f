/-! # Paths

A path has names with slashes between them. It starts at the root of the system
if its first character is a slash, and else in the directory of the program.
Following a path, one is always at a place.
-/

namespace MiniVerilog

namespace Path

/-- Where the names of a place are counted from. -/
inductive Base where
  /-- The directory of the program. -/
  | here
  /-- Some directory that holds the directory of the program. -/
  | above
  /-- The root of the system. -/
  | root
  deriving DecidableEq, Repr

/-- What a path leads to: names one inside the other, counted from a base. -/
structure Place where
  base : Base
  names : List String := []
  deriving DecidableEq, Repr

namespace Place

/-- The place of a name in a directory. -/
def child (place : Place) (name : String) : Place :=
  { place with names := place.names ++ [name] }

/-- The directory around a place. That of the root is the root itself. -/
def parent (place : Place) : Place :=
  match place.base, place.names with
  | .here, [] => ⟨.above, []⟩
  | base, names => ⟨base, names.dropLast⟩

end Place

end Path

/-- A path: the place where it starts, and the names to follow from there. -/
structure Path where
  start : Path.Place
  names : List String
  deriving DecidableEq, Repr

namespace Path

/-- The largest size of a path in bytes. -/
def maxSize : Nat :=
  4095

/-- The largest size of a name in bytes. -/
def maxNameSize : Nat :=
  255

/-- The name means a directory that is known without looking for the name. -/
def isDots (name : String) : Bool :=
  name == "." || name == ".."

/-- The path that a text stands for. A slash at the end is followed by an empty
name. -/
def ofText (text : String) : Path :=
  let names := (text.toList.splitOn '/').map String.ofList
  ⟨⟨if names.head? = some "" then .root else .here, []⟩, names⟩

/-- The names without empty ones at the end. -/
def trimmed (path : Path) : List String :=
  (path.names.reverse.dropWhile (· == "")).reverse

end Path

end MiniVerilog
