import Exemplar.Text.Visible
import Exemplar.Value

/-!
# The store

Everything that evaluation can change: frames of bindings, queues, exports, and the count of nested calls. Frames and
queues are only ever added; they are known by their numbers.
-/

namespace Exemplar

/-- Bindings of names, and the numbers of the enclosing frames, innermost first. -/
structure Frame where
  bindings : List (String × Value)
  outer : List Nat

/-- The state of a run. -/
structure Store where
  frames : Array Frame
  queues : Array (Array Value)
  exports : List (String × Value)
  /-- How many functions have been made. -/
  closures : Nat
  /-- How many calls may be nested. -/
  limit : Nat
  /-- How many calls are nested now. -/
  depth : Nat
  /-- How many calls were nested at most. -/
  deepest : Nat

namespace Store

/-- The limit on nested calls unless another is asked for. -/
def defaultLimit : Nat := 256

/-- A store with one frame that binds nothing. -/
def empty (limit : Nat := defaultLimit) : Store := ⟨#[⟨[], []⟩], #[], [], 0, limit, 0, 0⟩

/-- The frames in which a name is looked for from frame `f`, in order. -/
def chain (s : Store) (f : Nat) : List Nat :=
  f :: ((s.frames[f]?).map (·.outer)).getD []

/-- The value of a name in frame `f` itself. -/
def binding? (s : Store) (f : Nat) (name : String) : Option Value :=
  (s.frames[f]?).bind fun frame => Keyed.find? name frame.bindings

/-- The value of a name seen from frame `f`: that of the nearest frame that binds it. -/
def lookup? (s : Store) (f : Nat) (name : String) : Option Value :=
  (s.chain f).findSome? (s.binding? · name)

/-- Adds a frame inside frame `f`; its number is the old number of frames. -/
def child (s : Store) (f : Nat) (bindings : List (String × Value)) : Store :=
  { s with frames := s.frames.push ⟨bindings, s.chain f⟩ }

def define (s : Store) (f : Nat) (name : String) (value : Value) : Store :=
  { s with
    frames := s.frames.modify f fun frame =>
      { frame with bindings := Keyed.insert name value frame.bindings } }

/-- The frame whose binding an assignment from frame `f` changes: the nearest that binds the name, else the
outermost. -/
def target (s : Store) (f : Nat) (name : String) : Nat :=
  let chain := s.chain f
  match chain.find? fun g => (s.binding? g name).isSome with
  | some g => g
  | none => chain.getLastD f

def assign (s : Store) (f : Nat) (name : String) (value : Value) : Store :=
  s.define (s.target f name) name value

def clear (s : Store) (f : Nat) : Store :=
  { s with frames := s.frames.modify f fun frame => { frame with bindings := [] } }

/-- Adds an empty queue; its number is the old number of queues. -/
def addQueue (s : Store) : Store := { s with queues := s.queues.push #[] }

def enqueue (s : Store) (q : Nat) (value : Value) : Store :=
  { s with queues := s.queues.modify q (·.push value) }

/-- The values of queue `q`, oldest first. -/
def queue (s : Store) (q : Nat) : List Value := ((s.queues[q]?).getD #[]).toList

def drain (s : Store) (q : Nat) : Store := { s with queues := s.queues.modify q fun _ => #[] }

/-- Publishes a value under a name. -/
def publish (s : Store) (name : String) (value : Value) : Store :=
  { s with exports := Keyed.insert name value s.exports }

def countClosure (s : Store) : Store := { s with closures := s.closures + 1 }

/-- How many more calls may be nested. -/
def room (s : Store) : Nat := s.limit - s.depth

def descend (s : Store) : Store :=
  { s with depth := s.depth + 1, deepest := max s.deepest (s.depth + 1) }

def ascend (s : Store) : Store := { s with depth := s.depth - 1 }

/-- A store whose only frame binds the native functions. -/
def standard (limit : Nat := defaultLimit) : Store :=
  Native.all.foldl (fun s f => s.define 0 f.name (.native f)) (empty limit)

end Store

/-- A frame as text: its names in order, and whether it has an enclosing frame. -/
def Frame.render (frame : Frame) : String :=
  let names := ", ".intercalate (frame.bindings.map fun (name, _) => Text.quoteVisible name)
  let inner := if frame.outer.isEmpty then "false" else "true"
  "Env " ++ '{'.toString ++ " names: [" ++ names ++ "], has_parent: " ++ inner ++ " " ++ '}'.toString

end Exemplar
