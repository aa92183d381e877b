import Exemplar.Reader

/-!
# Faults

Everything that can stop a run, apart from what examples themselves raise.
-/

namespace Exemplar

/-- Why an entry of the queue cannot be used. -/
inductive EntryFault where
  | unknownType
  | missingThunk
  | lineNotNumber
  | missingLine
  deriving DecidableEq, Repr

def EntryFault.message : EntryFault → String
  | unknownType => "unknown :type"
  | missingThunk => "missing :thunk"
  | lineNotNumber => ":line is not a number"
  | missingLine => "output without :line"

/-- A cause that stops a run. -/
inductive Fault where
  /-- The value of an option is not one of the accepted ones. -/
  | invalidOption (option value : String)
  /-- The name of a file tells no dialect. -/
  | unknownDialect
  /-- A file is missing or is not text, or a report cannot be written. -/
  | unreadable (path : String)
  /-- A directory below `root` cannot be listed. -/
  | unwalkable (root directory reason : String)
  | malformed (fault : SyntaxFault)
  /-- Code outside of all examples raised an error, shown as `display`. -/
  | uncaught (display : String)
  /-- The block comments of a text are not found again after line examples were put in. -/
  | lostBlocks (found expected : Nat)
  | malformedEntry (entry : String) (fault : EntryFault)
  /-- A module at `path` ended without exporting its queue. -/
  | missingExport (path : String)
  deriving DecidableEq, Repr

namespace Fault

def message : Fault → String
  | invalidOption option value => s!"Invalid {option} `{value}'"
  | unknownDialect => "Cannot infer type from extension"
  | unreadable path => s!"Failed to read `{path}`"
  | unwalkable root directory reason =>
      s!"Internal error: failed to walk {root}: IO error for operation on {directory}: {reason}"
  | malformed fault => s!"Syntax error: {fault.message}"
  | uncaught display => s!"Uncaught error outside of any example: {display}"
  | lostBlocks found expected =>
      s!"Internal error: found {found} block comments after splicing line tests, expected {expected}"
  | malformedEntry entry fault => s!"Internal error: malformed doctest entry {entry}: {fault.message}"
  | missingExport path => s!"Internal error: module {path} did not export __doctest"

/-- The code under which a fault is reported. -/
def code : Fault → String
  | invalidOption _ _ => "doctest::config::invalid_option"
  | unknownDialect => "doctest::config::unknown_dialect"
  | unreadable _ => "doctest::io"
  | malformed _ => "doctest::syntax"
  | uncaught _ => "doctest::eval::uncaught"
  | unwalkable _ _ _ | lostBlocks _ _ | malformedEntry _ _ | missingExport _ => "doctest::internal"

/-- Whether the fault lies in what was asked for and not in a file. -/
def isConfiguration : Fault → Bool
  | invalidOption _ _ | unknownDialect => true
  | _ => false

end Fault

end Exemplar
