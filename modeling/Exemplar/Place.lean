import Exemplar.Path

/-!
# Places

Where a path leads. A place is written by the names that lead there from the root. Parts of a path that name nothing
lead nowhere else, and `..` leads to the directory around a place, which for the root is the root.
-/

namespace Exemplar

/-- The names that lead to a file or a directory from the root. -/
abbrev Place := List Raw

namespace Place

/-- Where one part of a path leads. -/
def step (place : Place) (part : Raw) : Place :=
  if Path.isIdle part then place
  else if part = Path.up then place.dropLast
  else place ++ [part]

/-- Where a path leads from a directory. -/
def ofPath (directory : Place) (path : Raw) : Place := (Path.segments path).foldl step directory

/-- The places that are left on the way along the parts of a path, in order. All of them are directories. -/
def passed (place : Place) : List Raw → List Place
  | [] => []
  | part :: rest => place :: passed (place.step part) rest

/-- The names that lead from a directory down to a place below it. -/
def below? (directory place : Place) : Option Place :=
  if directory.isPrefixOf place && place != directory then some (place.drop directory.length) else none

end Place

end Exemplar
