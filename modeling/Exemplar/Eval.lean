import Exemplar.Native.Compute
import Exemplar.Store

/-!
# Evaluation

Evaluation changes the store and ends with a value or a raised value; what was changed before a value is raised
stays. It is structural in the forms. Calls of functions made by the program count down from the limit on nested
calls, so that every evaluation ends.
-/

namespace Exemplar

/-- A computation on the store that may raise a value. -/
abbrev Eval := ExceptT Value (StateM Store)

/-- A way to call a value with arguments. -/
abbrev Caller := Value → List Value → Eval Value

/-- An error in the shape of a special form. -/
def shapeError (message : String) : Value := .error "SyntaxError" message

/-- The error about a name that nothing binds. -/
def unbound (name : String) : Value := .error "ReferenceError" s!"{name} is not defined"

def notCallable (value : Value) : Value := typeError s!"{value.render} is not callable"

def tooDeep (limit : Nat) : Value :=
  .error "RecursionError" s!"maximum call depth of {limit} exceeded"

namespace Eval

theorem run_bind {α β : Type} (x : Eval α) (f : α → Eval β) (s : Store) :
    (x >>= f).run.run s =
      match x.run.run s with
      | (.ok a, s') => (f a).run.run s'
      | (.error raised, s') => (.error raised, s') := by
  cases ran : x.run.run s with
  | mk outcome s' =>
      change (ExceptT.bindCont f (x.run.run s).1).run (x.run.run s).2 = _
      rw [ran]
      cases outcome <;> rfl

/-- A computation that needs no store. -/
def ofOutcome {α : Type} : Except Value α → Eval α
  | .ok a => pure a
  | .error raised => throw raised

/-- Adds a frame and gives its number. -/
def child (scope : Nat) (bindings : List (String × Value)) : Eval Nat :=
  modifyGet fun s => (s.frames.size, s.child scope bindings)

def newQueue : Eval Value :=
  modifyGet fun s => (.queue s.queues.size, s.addQueue)

/-- Runs a computation one call deeper, however it ends. -/
def nested {α : Type} (body : Eval α) : Eval α := ExceptT.mk do
  modify Store.descend
  let result ← body.run
  modify Store.ascend
  return result

end Eval

/-! ## Native functions -/

namespace Eval

/-- Calls a function on each value and keeps its results. -/
def mapItems (call : Caller) (f : Value) : List Value → Eval (List Value)
  | [] => return []
  | x :: rest => do
      let y ← call f [x]
      return y :: (← mapItems call f rest)

/-- Keeps the values for which a function gives something true. -/
def filterItems (call : Caller) (f : Value) : List Value → Eval (List Value)
  | [] => return []
  | x :: rest => do
      let keep ← call f [x]
      let kept ← filterItems call f rest
      return if keep.isTruthy then x :: kept else kept

/-- Calls a function on the result so far and each value in turn. -/
def reduceItems (call : Caller) (f : Value) (result : Value) : List Value → Eval Value
  | [] => return result
  | x :: rest => do reduceItems call f (← call f [result, x]) rest

end Eval

/-- Calls a native function. Those that call other functions do it by `call`, with fewer arguments than their own. -/
def Native.run (call : Caller) (f : Native) (args : List Value) : Eval Value :=
  match f with
  | .add => Eval.ofOutcome (Compute.add args)
  | .sub => Eval.ofOutcome (Compute.sub args)
  | .mul => Eval.ofOutcome (Compute.mul args)
  | .div => Eval.ofOutcome (Compute.div args)
  | .mod => Eval.ofOutcome (Compute.mod args)
  | .abs => Eval.ofOutcome (Compute.abs args)
  | .min => Eval.ofOutcome (Compute.extreme f Compute.lesser args)
  | .max => Eval.ofOutcome (Compute.extreme f Compute.greater args)
  | .equal => Eval.ofOutcome (Compute.equal .equal true args)
  | .notEqual => Eval.ofOutcome (Compute.equal .equal false args)
  | .less => Eval.ofOutcome (Compute.order f (·.isLT) args)
  | .greater => Eval.ofOutcome (Compute.order f (·.isGT) args)
  | .lessEqual => Eval.ofOutcome (Compute.order f (·.isLE) args)
  | .greaterEqual => Eval.ofOutcome (Compute.order f (·.isGE) args)
  | .not => Eval.ofOutcome (Compute.not args)
  | .list => pure (.list args)
  | .len => Eval.ofOutcome (Compute.len args)
  | .first => Eval.ofOutcome (Compute.first args)
  | .rest => Eval.ofOutcome (Compute.rest args)
  | .nth => Eval.ofOutcome (Compute.nth args)
  | .cons => Eval.ofOutcome (Compute.cons args)
  | .append => Eval.ofOutcome (Compute.append args)
  | .get => Eval.ofOutcome (Compute.get args)
  | .assoc => Eval.ofOutcome (Compute.assoc args)
  | .keys => Eval.ofOutcome (Compute.keys args)
  | .map =>
      match args with
      | [g, xs] => do
          let g ← Eval.ofOutcome (f.callable g)
          return .list (← Eval.mapItems call g (← Eval.ofOutcome (f.items xs)))
      | _ => Eval.ofOutcome (f.wrongCount "2" args)
  | .filter =>
      match args with
      | [g, xs] => do
          let g ← Eval.ofOutcome (f.callable g)
          return .list (← Eval.filterItems call g (← Eval.ofOutcome (f.items xs)))
      | _ => Eval.ofOutcome (f.wrongCount "2" args)
  | .reduce =>
      match args with
      | [g, start, xs] => do
          let g ← Eval.ofOutcome (f.callable g)
          Eval.reduceItems call g start (← Eval.ofOutcome (f.items xs))
      | _ => Eval.ofOutcome (f.wrongCount "3" args)
  | .str => Eval.ofOutcome (Compute.str args)
  | .upper => Eval.ofOutcome (Compute.upper args)
  | .lower => Eval.ofOutcome (Compute.lower args)
  | .error => Eval.ofOutcome (Compute.error args)
  | .raise => Eval.ofOutcome (Compute.raise args)
  | .errorName => Eval.ofOutcome (Compute.errorName args)
  | .errorMessage => Eval.ofOutcome (Compute.errorMessage args)
  | .typeOf => Eval.ofOutcome (Compute.typeOf args)
  | .queue =>
      match args with
      | [] => Eval.newQueue
      | _ => Eval.ofOutcome (f.wrongCount "0" args)
  | .enqueue =>
      match args with
      | [q, value] => do
          let id ← Eval.ofOutcome (f.queueId q)
          modify (·.enqueue id value)
          return .nil
      | _ => Eval.ofOutcome (f.wrongCount "2" args)

/-! ## Special forms -/

/-- Round groups that are no calls. Their heads cannot be bound to anything else. -/
inductive Special where
  | quote
  | cond
  | seq
  | define
  | assign
  | lambda
  | binding
  | conj
  | disj
  | publish
  deriving DecidableEq, Repr

/-- The special form that a symbol at the head names. -/
def Special.ofName? (name : String) : Option Special :=
  if name = "quote" then some quote
  else if name = "if" then some cond
  else if name = "do" then some seq
  else if name = "define" then some define
  else if name = "set!" then some assign
  else if name = "fn" then some lambda
  else if name = "let" then some binding
  else if name = "and" then some conj
  else if name = "or" then some disj
  else if name = "export!" then some publish
  else none

def parameter (form : Form) : Except Value String :=
  match form.symbol? with
  | some name => .ok name
  | none => .error (shapeError s!"parameter must be a symbol, got {form.render}")

/-- The names of parameters, and the one behind `&` that takes all further arguments. -/
def parameters : List Form → Except Value (List String × Option String)
  | [] => .ok ([], none)
  | form :: more => do
      let name ← parameter form
      if name = "&" then
        match more with
        | [] => .error (shapeError "& must be followed by a parameter name")
        | form :: others =>
            let name ← parameter form
            if others.isEmpty then .ok ([], some name)
            else .error (shapeError "only one parameter may follow &")
      else
        let (names, variadic) ← parameters more
        .ok (name :: names, variadic)

/-- The parameter list and the body of a function. -/
def functionParts : List Form → Except Value (List Form × List Form)
  | .group .round params :: body | .group .square params :: body => .ok (params, body)
  | _ => .error (shapeError "fn needs a parameter list")

namespace Eval

/-- Makes a function in frame `scope`. -/
def function (scope : Nat) (name : Option String) (params body : List Form) : Eval Value := do
  let (names, variadic) ← ofOutcome (parameters params)
  modifyGet fun s => (.closure ⟨s.closures, name, names, variadic, body, scope⟩, s.countClosure)

/-- Makes a function from what follows `fn`. -/
def lambda (scope : Nat) (name : Option String) (args : List Form) : Eval Value := do
  let (params, body) ← ofOutcome (functionParts args)
  function scope name params body

/-- The value of a form that gets bound to a name: a function written out takes the name, any other form is
evaluated by `value`. -/
def named (scope : Nat) (name : String) (form : Form) (value : Eval Value) : Eval Value :=
  match form with
  | .group .round (.atom (.symbol "fn") :: args) => lambda scope (some name) args
  | _ => value

def atom (scope : Nat) : Atom → Eval Value
  | .nil => return .nil
  | .bool b => return .bool b
  | .number x => return .number x
  | .string text => return .string text
  | .keyword name => return .keyword name
  | .symbol name => do
      match (← get).lookup? scope name with
      | some value => return value
      | none => throw (unbound name)

/-- Defines a function from the signature and the body that follow `define`. -/
def defineFunction (scope : Nat) (signature body : List Form) : Eval Value := do
  match signature with
  | .atom (.symbol name) :: params =>
      let f ← function scope (some name) params body
      modify (·.define scope name f)
      return .nil
  | _ => throw (shapeError "define needs a function name")

mutual

/-- Evaluates a form in frame `scope`. -/
def form (call : Caller) (scope : Nat) : Form → Eval Value
  | .atom a => atom scope a
  | .quote inner => return inner.quoted
  | .group .square items => return .list (← list call scope items)
  | .group .curly items =>
      if items.length % 2 = 0 then return .map (← entries call scope [] items)
      else throw (shapeError "map literal needs an even number of forms")
  | .group .round [] => return .list []
  | .group .round (head :: args) => do
      match head.symbol?.bind Special.ofName? with
      | some .quote =>
          match args with
          | [inner] => return inner.quoted
          | _ => throw (arityError "quote" "1" args.length)
      | some .cond =>
          match args with
          | [condition, yes] => if (← form call scope condition).isTruthy then form call scope yes else return .nil
          | [condition, yes, no] =>
              if (← form call scope condition).isTruthy then form call scope yes else form call scope no
          | _ => throw (arityError "if" "2 or 3" args.length)
      | some .seq => body call scope .nil args
      | some .define =>
          match args with
          | [] => throw (arityError "define" "at least 1" 0)
          | .group .round signature :: rest => defineFunction scope signature rest
          | .atom (.symbol name) :: rest =>
              match rest with
              | [] =>
                  modify (·.define scope name .nil)
                  return .nil
              | [value] =>
                  let v ← named scope name value (form call scope value)
                  modify (·.define scope name v)
                  return .nil
              | _ => throw (arityError "define" "1 or 2" args.length)
          | other :: _ => throw (shapeError s!"cannot define a {other.kind}")
      | some .assign =>
          match args with
          | [target, value] =>
              match target with
              | .atom (.symbol name) =>
                  let v ← form call scope value
                  modify (·.assign scope name v)
                  return v
              | _ => throw (shapeError "set! needs a symbol")
          | _ => throw (arityError "set!" "2" args.length)
      | some .lambda => lambda scope none args
      | some .binding =>
          match args with
          | [] => throw (arityError "let" "at least 1" 0)
          | .group .round pairs :: rest =>
              let inner ← child scope []
              bindings call inner pairs
              body call inner .nil rest
          | _ => throw (shapeError "let bindings must be a list of pairs")
      | some .conj => conjunction call scope (.bool true) args
      | some .disj => disjunction call scope .nil args
      | some .publish =>
          match args with
          | [name, value] =>
              match ← form call scope name with
              | .string text =>
                  let v ← form call scope value
                  modify (·.publish text v)
                  return v
              | other => throw (typeError s!"export! expects a string name, got {other.type}")
          | _ => throw (arityError "export!" "2" args.length)
      | none =>
          let f ← form call scope head
          call f (← list call scope args)

/-- Evaluates forms in order and gives their values. -/
def list (call : Caller) (scope : Nat) : List Form → Eval (List Value)
  | [] => return []
  | item :: rest => do
      let value ← form call scope item
      return value :: (← list call scope rest)

/-- Evaluates forms in order and gives the last value. -/
def body (call : Caller) (scope : Nat) (last : Value) : List Form → Eval Value
  | [] => return last
  | item :: rest => do body call scope (← form call scope item) rest

/-- Evaluates forms in pairs of a key and a value, and writes them into a map. Their number is even. -/
def entries (call : Caller) (scope : Nat) (written : List (Key × Value)) : List Form → Eval (List (Key × Value))
  | [] => return written
  | [_] => return written
  | key :: value :: rest => do
      let k ← form call scope key
      match k.key? with
      | some key =>
          let v ← form call scope value
          entries call scope (Keyed.insert key v written) rest
      | none => throw (typeError s!"map keys must be keywords or strings, got {k.type}")

/-- Binds names one after another in frame `scope`. -/
def bindings (call : Caller) (scope : Nat) : List Form → Eval Unit
  | [] => return ()
  | pair :: rest => do
      match pair with
      | .group .round [.atom (.symbol name), value] =>
          let v ← named scope name value (form call scope value)
          modify (·.define scope name v)
          bindings call scope rest
      | .group .round _ => throw (shapeError "let binding needs a name and a value")
      | _ => throw (shapeError "let bindings must be a list of pairs")

/-- Evaluates forms up to the first whose value is false; gives the last value. -/
def conjunction (call : Caller) (scope : Nat) (last : Value) : List Form → Eval Value
  | [] => return last
  | item :: rest => do
      let value ← form call scope item
      if value.isTruthy then conjunction call scope value rest else return value

/-- Evaluates forms up to the first whose value is true; gives the last value. -/
def disjunction (call : Caller) (scope : Nat) (last : Value) : List Form → Eval Value
  | [] => return last
  | item :: rest => do
      let value ← form call scope item
      if value.isTruthy then return value else disjunction call scope value rest

end

theorem body_append (call : Caller) (scope : Nat) (last : Value) (left right : List Form) :
    body call scope last (left ++ right) = (do body call scope (← body call scope last left) right) := by
  induction left generalizing last with
  | nil => rw [List.nil_append, body, pure_bind]
  | cons item rest ih =>
      rw [List.cons_append, body, body, bind_assoc]
      exact congrArg _ (funext fun value => ih value)

theorem run_symbol (call : Caller) {scope : Nat} {name : String} {s : Store} {value : Value}
    (bound : s.lookup? scope name = some value) :
    (form call scope (.atom (.symbol name))).run.run s = (.ok value, s) := by
  have store : (get : Eval Store).run.run s = (.ok s, s) := rfl
  rw [form, atom, run_bind, store]
  dsimp only
  rw [bound]
  rfl

end Eval

/-! ## Calls -/

namespace Closure

/-- Whether the function takes that many arguments. -/
def accepts (c : Closure) (count : Nat) : Bool :=
  if c.rest.isSome then c.params.length ≤ count else count == c.params.length

/-- How many arguments the function takes, in words. -/
def arity (c : Closure) : String :=
  if c.rest.isSome then s!"at least {c.params.length}" else s!"{c.params.length}"

/-- The bindings of the parameters; of two with one name the later counts. -/
def bind (c : Closure) (args : List Value) : List (String × Value) :=
  let named := Keyed.insertAll (c.params.zip args) []
  match c.rest with
  | some name => Keyed.insert name (.list (args.drop c.params.length)) named
  | none => named

/-- Evaluates the body for the given arguments, with calls inside it made by `call`. -/
def enter (call : Caller) (c : Closure) (args : List Value) : Eval Value := do
  if c.accepts args.length then
    let scope ← Eval.child c.scope (c.bind args)
    Eval.nested (Eval.body call scope .nil c.body)
  else throw (arityError (c.name.getD "fn") c.arity args.length)

end Closure

namespace Eval

/-- Calls a value: a function of the program by `enter`, a native function by `native`. -/
def dispatch (enter : Closure → List Value → Eval Value) (native : Native → List Value → Eval Value) : Caller
  | .closure c, args => enter c args
  | .native f, args => native f args
  | other, _ => throw (notCallable other)

/-- Calls a native function with `width` arguments. A native function that calls others passes them fewer arguments
than it got, so that the width bounds how deep native functions call each other. -/
def applyNative (enter : Closure → List Value → Eval Value) : (width : Nat) → Native → List Value → Eval Value
  | 0, f, args => f.run (fun g _ => throw (notCallable g)) args
  | width + 1, f, args => f.run (dispatch enter (applyNative enter width)) args

/-- Calls a value whose functions of the program are called by `enter`. -/
def applyWith (enter : Closure → List Value → Eval Value) : Caller := fun f args =>
  dispatch enter (applyNative enter args.length) f args

/-- Calls a value when `room` more calls may be nested. -/
def applyAt : (room : Nat) → Caller
  | 0 => applyWith fun _ _ => do throw (tooDeep (← get).limit)
  | room + 1 => applyWith (Closure.enter (applyAt room))

def apply (f : Value) (args : List Value) : Eval Value := do
  applyAt (← get).room f args

/-- Evaluates the forms of a program in frame `scope` and gives the last value. -/
def program (scope : Nat) (forms : List Form) : Eval Value := do
  body (applyAt (← get).room) scope .nil forms

end Eval

end Exemplar
