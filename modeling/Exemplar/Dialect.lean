import Exemplar.Fault
import Exemplar.Path

/-!
# Dialects

Plain programs with `;` and `#| |#` comments, and literate programs with `#` comments.
-/

namespace Exemplar

/-- A kind of program text. -/
inductive Dialect where
  | sx
  | sxl
  deriving DecidableEq, Repr

namespace Dialect

/-- The dialects in the order in which they are looked for. -/
def all : List Dialect := [sx, sxl]

/-- The name of a dialect, which is also the extension of its files. -/
def name : Dialect → String
  | sx => "sx"
  | sxl => "sxl"

def ofName (name : String) : Except Fault Dialect :=
  match all.find? (·.name == name) with
  | some dialect => .ok dialect
  | none => .error (.invalidOption "type" name)

/-- The dialect that the extension of a path tells. -/
def infer (path : Raw) : Except Fault Dialect :=
  match all.find? fun dialect => Path.extension? path == some (Raw.ofText dialect.name) with
  | some dialect => .ok dialect
  | none => .error .unknownDialect

/-- Whether a path names a program in some dialect. -/
def isSource (path : Raw) : Bool := (infer path).isOk

end Dialect

end Exemplar
