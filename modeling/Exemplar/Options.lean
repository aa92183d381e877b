import Exemplar.Dialect
import Exemplar.Envelope

/-!
# Options of a run
-/

namespace Exemplar

/-- What a run is asked to do. -/
structure Options where
  /-- The dialect of every file; without one the name of a file tells it. -/
  dialect : Option Dialect := none
  /-- The text that a comment line must begin with to take part in an example. -/
  lead : String := ""
  envelope : Envelope := .bare
  /-- Give the instrumented program instead of running it. -/
  print : Bool := false
  silent : Bool := false
  deriving DecidableEq, Repr

namespace Options

/-- The options with an envelope and a dialect given by name. The envelope is looked at first. -/
def select (options : Options) (envelope dialect : Option String) : Except Fault Options := do
  let options ←
    match envelope with
    | some name => .ok { options with envelope := ← Envelope.ofName name }
    | none => .ok options
  match dialect with
  | some name => .ok { options with dialect := some (← Dialect.ofName name) }
  | none => .ok options

def announces (options : Options) : Bool := !(options.silent || options.print)

def dialectOf (options : Options) (path : Raw) : Except Fault Dialect :=
  match options.dialect with
  | some dialect => .ok dialect
  | none => Dialect.infer path

end Options

end Exemplar
