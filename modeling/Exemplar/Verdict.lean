import Exemplar.Entry

/-!
# Verdicts

The queue is run in order. An input waits until something needs it: the next input runs it for what it changes, an
expected result runs it and is compared with it. An input that nothing follows is never run.
-/

namespace Exemplar

/-- What came of one example. -/
structure Verdict where
  pass : Bool
  actual : String
  expected : String
  line : Nat
  deriving DecidableEq, Repr

namespace Verdict

def renderOutcome (withMessage : Bool) : Except Value Value → String
  | .ok value => value.render
  | .error raised => raised.renderRaised withMessage

/-- The name and the message of an expected error; both empty when the value is no error. -/
def expectedError : Value → String × String
  | .error name message => (name, message)
  | _ => ("", "")

/-- Whether an outcome is a raised error of that name, and of that message unless it is empty. -/
def raises (name message : String) : Except Value Value → Bool
  | .error (.error name' message') => name' == name && (message.isEmpty || message' == message)
  | _ => false

/-- Whether an outcome is a value equal to `expected`. -/
def gives (expected : Value) : Except Value Value → Bool
  | .ok value => value.same expected
  | .error _ => false

/-- Compares what an input came to with what was expected. An expected result that raises is a failure. -/
def judge (actual expected : Except Value Value) (negate : Bool) (line : Nat) : Verdict :=
  match expected with
  | .error raised => ⟨false, renderOutcome true actual, raised.renderRaised true, line⟩
  | .ok expected =>
      if negate then
        let (name, message) := expectedError expected
        let withMessage := !message.isEmpty
        ⟨raises name message actual, renderOutcome withMessage actual,
          Value.renderRaised withMessage (.error name message), line⟩
      else ⟨gives expected actual, renderOutcome true actual, expected.render, line⟩

section

variable {σ : Type} (invoke : Value → StateM σ (Except Value Value))

/-- Takes one entry of a queue, with a buffer of the functions that wait. Both kinds of entry empty the buffer: an input
runs what waits for what it changes and then waits itself, an expected result is compared with the first outcome. -/
def step (buffer : List Value) (entry : Entry) : StateM σ (List Value × Option Verdict) := do
  if entry.isOutput then
    let outcomes ← buffer.mapM invoke
    let actual := outcomes.head?.getD (.ok .nil)
    let expected ← invoke entry.thunk
    return ([], some (judge actual expected entry.negate (entry.line.getD 0)))
  else
    let _ ← buffer.mapM invoke
    return ([entry.thunk], none)

/-- Takes entries in order: the buffer behind them and the verdicts. -/
def steps (buffer : List Value) : List Entry → StateM σ (List Value × List Verdict)
  | [] => return (buffer, [])
  | entry :: rest => do
      let (buffer, verdict?) ← step invoke buffer entry
      let (buffer, verdicts) ← steps buffer rest
      return (buffer, verdict?.toList ++ verdicts)

/-- Runs entries in order, calling functions by `invoke`, and judges every expected result. -/
def run (buffer : List Value) (entries : List Entry) : StateM σ (List Verdict) :=
  return (← steps invoke buffer entries).2

end

end Verdict

end Exemplar
