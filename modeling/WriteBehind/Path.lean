/-!
# Paths

A path leads through directories to a file.  Its names stand between slashes; an
empty name and a point stay where they are, and two points lead to the directory
above.  Many paths lead to one `Place`, so files are kept by their place.
-/

namespace WriteBehind

/-- The names from a file or directory up to the root. -/
abbrev Place := List String

namespace Place

/-- A place as a path from the root. -/
def text (place : Place) : String := String.join (place.reverse.map ("/" ++ ·))

/-- The place of a name in a directory. -/
def step (place : Place) (name : String) : Place :=
  match name with
  | "" | "." => place
  | ".." => place.tail
  | name => name :: place

/-- Whether a place stands in a directory or further below it. -/
def isBelow (place directory : Place) : Bool :=
  directory.isSuffixOf place && place != directory

end Place

namespace Path

/-- The names of a path, the last one first. -/
def names (path : String) : List String := (path.splitOn "/").reverse

/-- Whether a name stays where it is. -/
def isHere (name : String) : Bool := name = "" || name = "."

/-- Whether a name leads down. -/
def leadsDown (name : String) : Bool := !isHere name && name != ".."

/-- The names of a path without those at its end that stay where they are, the last
one first. -/
def trimmed (path : String) : List String := (names path).dropWhile isHere

/-- The directory that names lead to, from another one.  Every name must be that of a
directory. -/
def walk? (isDirectory : Place → Bool) : Place → List String → Option Place
  | place, [] => some place
  | place, name :: rest =>
    if isDirectory (place.step name) then walk? isDirectory (place.step name) rest else none

/-- The place of the file that names, the last one first, lead to. -/
def place? (isDirectory : Place → Bool) (start : Place) : List String → Option Place
  | name :: above =>
    if leadsDown name then (walk? isDirectory start above.reverse).map (name :: ·) else none
  | [] => none

end Path

end WriteBehind
