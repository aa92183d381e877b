import Exemplar.Dialect
import Exemplar.Place

/-!
# Files

A table of files by place stands for the file system. A directory is there when a file or the working directory is below
it, or when it was passed on the way to a file. There are no links.
-/

namespace Exemplar

/-- Files with their contents, and directories that are there even if no file is below them. -/
structure Files where
  /-- The working directory. -/
  home : Place
  entries : List (Place × ByteArray) := []
  directories : List Place := []
  /-- Directories that cannot be listed, each with the reason. -/
  locked : List (Place × String) := []

namespace Files

/-- Where the parts of a path are followed from. -/
def origin (files : Files) (path : Raw) : Place := if Path.isAbsolute path then [] else files.home

/-- Writes a file, in place of one that is there already. The directories on the way to it are made. -/
def write (files : Files) (path : Raw) (bytes : ByteArray) : Files :=
  let origin := files.origin path
  let place := origin.ofPath path
  { files with
    entries := files.entries.filter (fun entry => entry.1 != place) ++ [(place, bytes)]
    directories := files.directories ++ origin.passed (Path.segments path) }

/-- The table of files with the given paths, written in order. -/
def ofPaths (home : Place) (entries : List (Raw × ByteArray)) : Files :=
  entries.foldl (fun files (path, bytes) => files.write path bytes) { home }

def contents? (files : Files) (place : Place) : Option ByteArray := files.entries.lookup place

/-- The files below a directory, by the names that lead to them from it. -/
def below (files : Files) (directory : Place) : List Place :=
  files.entries.filterMap fun (place, _) => directory.below? place

/-- The first directory at or below a place that cannot be listed, by the names that lead there, with the reason. -/
def obstacle? (files : Files) (place : Place) : Option (Place × String) :=
  files.locked.findSome? fun (directory, reason) =>
    if place.isPrefixOf directory then some (directory.drop place.length, reason) else none

def isDirectoryAt (files : Files) (place : Place) : Bool :=
  place.isPrefixOf files.home || files.directories.contains place || (files.obstacle? place).isSome ||
    !(files.below place).isEmpty

/-- The place that is reached from a place by the parts of a path, when all places on the way exist. -/
def walk (files : Files) (place : Place) : List Raw → Option Place
  | [] => some place
  | part :: rest =>
      if files.isDirectoryAt place then
        let next := place.step part
        if files.isDirectoryAt next || (files.contents? next).isSome then walk files next rest else none
      else none

/-- The place that a path leads to. -/
def resolve? (files : Files) (path : Raw) : Option Place :=
  if path = [] then none else files.walk (files.origin path) (Path.segments path)

def isDirectory (files : Files) (path : Raw) : Bool := (files.resolve? path).any files.isDirectoryAt

/-- The text of the file at a path, when it is there and is text. -/
def read? (files : Files) (path : Raw) : Option String :=
  (files.resolve? path).bind fun place => (files.contents? place).bind String.fromUTF8?

/-- The path of what is reached from the directory at `root` by names. -/
def pathBelow (root : Raw) (names : Place) : Raw :=
  if names = [] then root else Path.child root (Text.join Path.slash names)

/-- The paths of the programs below a directory, in the order of their parts, unless a directory cannot be listed. -/
def discover (files : Files) (root : Raw) : Except Fault (List Raw) :=
  match files.resolve? root with
  | none => .ok []
  | some place =>
      match files.obstacle? place with
      | some (names, reason) => .error (.unwalkable root.shown (pathBelow root names).shown reason)
      | none =>
          let names := (files.below place).mergeSort fun a b => !(b < a)
          .ok ((names.map (pathBelow root)).filter Dialect.isSource)

/-- The files that a path stands for: the programs below it if it is a directory. -/
def listing (files : Files) (path : Raw) : Except Fault (List Raw) :=
  if files.isDirectory path then files.discover path else .ok [path]

/-- The paths with every directory replaced by the programs below it. -/
def expand (files : Files) (paths : List Raw) : Except Fault (List Raw) :=
  return (← paths.mapM files.listing).flatten

end Files

end Exemplar
