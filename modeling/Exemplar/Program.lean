import Exemplar.Eval
import Exemplar.Harness
import Exemplar.Verdict

/-!
# Running instrumented programs

A program is evaluated in a store of its own, and the entries it left in its queue are then run in that store. The
queue is bound beforehand, or the program makes it and exports it.
-/

namespace Exemplar

/-- What evaluating a program leaves: the store and the entries of its queue. -/
structure Loaded where
  store : Store
  entries : List Entry

namespace Program

/-- Evaluates forms in the outermost frame. -/
def evaluate (s : Store) (forms : List Form) : Except Fault Store :=
  match (Eval.program 0 forms).run.run s with
  | (.ok _, s) => .ok s
  | (.error raised, _) => .error (.uncaught (raised.renderRaised true))

/-- Takes the entries out of queue `q` and reads them. -/
def collect (s : Store) (q : Nat) : Except Fault Loaded := do
  return ⟨s.drain q, ← (s.queue q).mapM Entry.decode⟩

/-- Evaluates a program with its queue bound beforehand. -/
def load (text : String) : Except Fault Loaded := do
  let forms ← (Form.read text).mapError .malformed
  let s := (Store.standard.addQueue).define 0 Harness.queueName (.queue 0)
  collect (← evaluate s forms) 0

/-- Evaluates a program that exports its queue, as the module at `path`. -/
def loadModule (text path : String) : Except Fault Loaded := do
  let forms ← (Form.read text).mapError .malformed
  let s ← evaluate Store.standard forms
  match Keyed.find? Harness.queueName s.exports with
  | some (.queue q) => collect s q
  | _ => .error (.missingExport path)

def invoke (thunk : Value) : StateM Store (Except Value Value) := (Eval.apply thunk []).run

/-- Runs the entries of a loaded program: the verdicts and the store behind them. -/
def judge (loaded : Loaded) : List Verdict × Store :=
  (Verdict.run invoke [] loaded.entries).run loaded.store

end Program

end Exemplar
