import Exemplar.Raw
import Exemplar.Text.Lines

/-!
# Paths

Paths of files with `/` between the parts. Empty parts and `.` name nothing of their own, except that a leading `.` or
`/` is kept.
-/

namespace Exemplar.Path

def slash : UInt8 := '/'.toUInt8

def dot : UInt8 := '.'.toUInt8

/-- The part that leads to the directory around the one before it. -/
def up : Raw := [dot, dot]

/-- The parts between the slashes, empty ones included. -/
def segments (path : Raw) : List Raw := Text.split slash path

def isAbsolute (path : Raw) : Bool := path.head? == some slash

/-- Whether a part names nothing. -/
def isIdle (segment : Raw) : Bool := segment == [] || segment == [dot]

/-- The parts up to the last one that names something, in reverse. -/
def trimmed (path : Raw) : List Raw := (segments path).reverse.dropWhile isIdle

/-- The last part, unless the path ends at a root, at `.` or at `..`. -/
def fileName? (path : Raw) : Option Raw :=
  match trimmed path with
  | [] => none
  | name :: _ => if name = up then none else some name

/-- A file name cut at its last dot. A name whose only dot is its first character has no extension. -/
def splitName (name : Raw) : Raw × Option Raw :=
  let after := (name.reverse.takeWhile (· != dot)).reverse
  match name.reverse.dropWhile (· != dot) with
  | _ :: before => if before = [] then (name, none) else (before.reverse, some after)
  | [] => (name, none)

/-- What follows the last dot of the file name. -/
def extension? (path : Raw) : Option Raw := (fileName? path).bind fun name => (splitName name).2

/-- The file name without its extension. -/
def stem? (path : Raw) : Option Raw := (fileName? path).map fun name => (splitName name).1

/-- The directory of a file, `.` when the path names none. -/
def directory (path : Raw) : Raw :=
  let above := (trimmed path).tail
  match above.dropWhile isIdle with
  | [] =>
      match above.getLast? with
      | some [] => [slash]
      | _ => [dot]
  | kept => Text.join slash kept.reverse

/-- The path of `name` inside a directory. -/
def child (directory name : Raw) : Raw :=
  if directory.getLast? = some slash then directory ++ name else directory ++ slash :: name

end Exemplar.Path
