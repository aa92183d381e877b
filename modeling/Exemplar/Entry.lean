import Exemplar.Fault
import Exemplar.Value

/-!
# Entries of the queue

What an instrumented program puts into its queue: inputs and expected results, each as a function without parameters.
-/

namespace Exemplar

/-- An input or an expected result. -/
structure Entry where
  isOutput : Bool
  thunk : Value
  /-- The line of the program that holds an expected result. -/
  line : Option Nat
  /-- Whether the result is an error that should be raised. -/
  negate : Bool

namespace Entry

/-- A line number: the whole part of a number, within the bounds of line numbers. -/
def lineOf (x : Float) : Nat := x.toUInt64.toNat

/-- Whether the entry is an expected result. -/
def kind (value : Value) : Except EntryFault Bool :=
  match value.entry? "type" with
  | some (.keyword name) =>
      if name = "input" then .ok false
      else if name = "output" then .ok true
      else .error .unknownType
  | _ => .error .unknownType

def function (value : Value) : Except EntryFault Value :=
  match value.entry? "thunk" with
  | some thunk => if thunk.isCallable then .ok thunk else .error .missingThunk
  | none => .error .missingThunk

def lineNumber (value : Value) : Except EntryFault (Option Nat) :=
  match value.entry? "line" with
  | some (.number x) => .ok (some (lineOf x))
  | some _ => .error .lineNotNumber
  | none => .ok none

/-- Whether the entry expects an error. -/
def isNegated (value : Value) : Bool :=
  match value.entry? "negate" with
  | some (.bool true) => true
  | _ => false

def ofValue? (value : Value) : Except EntryFault Entry := do
  let isOutput ← kind value
  let thunk ← function value
  let line ← lineNumber value
  if isOutput && line.isNone then .error .missingLine
  else return ⟨isOutput, thunk, line, isNegated value⟩

def decode (value : Value) : Except Fault Entry :=
  (ofValue? value).mapError (.malformedEntry value.render)

end Entry

end Exemplar
