import Exemplar.Text.Casing
import Exemplar.Value

/-!
# Native functions that compute

The native functions that need neither the store nor other functions. Each takes its arguments in order and raises
an error value when their number or their types are wrong.
-/

namespace Exemplar

def arityError (name expected : String) (got : Nat) : Value :=
  .error "ArityError" s!"{name} expects {expected} arguments, got {got}"

def typeError (message : String) : Value := .error "TypeError" message

namespace Native

/-- The outcome of a computation: a value, or a raised one. -/
abbrev Outcome := Except Value

/-- The error about an argument of the wrong type. -/
def mismatch (f : Native) (expected : String) (found : Value) : Value :=
  typeError s!"{f.name} expects {expected}, got {found.type} {found.render}"

/-- Refuses the number of arguments. -/
def wrongCount {α : Type} (f : Native) (expected : String) (args : List Value) : Outcome α :=
  .error (arityError f.name expected args.length)

/-! ## Arguments -/

def number (f : Native) : Value → Outcome Float
  | .number x => .ok x
  | other => .error (f.mismatch "a number" other)

/-- Whole numbers from zero on; those that no list is long enough for count as the greatest. -/
def index (f : Native) : Value → Outcome Nat
  | .number x =>
      if x >= 0 && x.isFinite && x.floor == x then .ok x.toUInt64.toNat
      else .error (f.mismatch "a non-negative integer" (.number x))
  | other => .error (f.mismatch "a non-negative integer" other)

def string (f : Native) : Value → Outcome String
  | .string text => .ok text
  | other => .error (f.mismatch "a string" other)

/-- Lists; `nil` is the empty one. -/
def items (f : Native) : Value → Outcome (List Value)
  | .list items => .ok items
  | .nil => .ok []
  | other => .error (f.mismatch "a list" other)

/-- Maps; `nil` is the empty one. -/
def entries (f : Native) : Value → Outcome (List (Key × Value))
  | .map entries => .ok entries
  | .nil => .ok []
  | other => .error (f.mismatch "a map" other)

def key (f : Native) (value : Value) : Outcome Key :=
  match value.key? with
  | some key => .ok key
  | none => .error (f.mismatch "a keyword or string key" value)

def callable (f : Native) (value : Value) : Outcome Value :=
  if value.isCallable then .ok value else .error (f.mismatch "a function" value)

/-- The name and the message of an error. -/
def problem (f : Native) : Value → Outcome (String × String)
  | .error name message => .ok (name, message)
  | other => .error (f.mismatch "an error" other)

def queueId (f : Native) : Value → Outcome Nat
  | .queue id => .ok id
  | other => .error (f.mismatch "a queue" other)

/-- All arguments as numbers; the first that is none is refused. -/
def numbers (f : Native) (args : List Value) : Outcome (List Float) := args.mapM f.number

end Native

namespace Compute

/-! ## Arithmetic -/

def add (args : List Value) : Native.Outcome Value := do
  return .number ((← Native.add.numbers args).foldl (· + ·) 0)

def mul (args : List Value) : Native.Outcome Value := do
  return .number ((← Native.mul.numbers args).foldl (· * ·) 1)

/-- The first number less the others, or a single number negated. -/
def sub : List Value → Native.Outcome Value
  | [] => Native.sub.wrongCount "at least 1" []
  | [a] => do return .number (-(← Native.sub.number a))
  | a :: more => do
      let x ← Native.sub.number a
      return .number ((← Native.sub.numbers more).foldl (· - ·) x)

def divisionByZero (message : String) : Value := .error "ZeroDivisionError" message

def divide (x y : Float) : Native.Outcome Float :=
  if y == 0 then .error (divisionByZero "division by zero") else .ok (x / y)

/-- The first number divided by the others in turn. -/
def div : List Value → Native.Outcome Value
  | a :: b :: more => do
      let x ← Native.div.number a
      let divisors ← Native.div.numbers (b :: more)
      return .number (← divisors.foldlM divide x)
  | args => Native.div.wrongCount "at least 2" args

/-- The remainder with the sign of the divisor. -/
def mod : List Value → Native.Outcome Value
  | [a, b] => do
      let x ← Native.mod.number a
      let y ← Native.mod.number b
      if y == 0 then .error (divisionByZero "modulo by zero")
      else return .number (x - y * (x / y).floor)
  | args => Native.mod.wrongCount "2" args

def abs : List Value → Native.Outcome Value
  | [a] => do return .number (← Native.abs.number a).abs
  | args => Native.abs.wrongCount "1" args

/-- The smaller number; what is no number loses. -/
def lesser (x y : Float) : Float :=
  if x.isNaN then y else if y.isNaN then x else if y < x then y else x

/-- The greater number; what is no number loses. -/
def greater (x y : Float) : Float :=
  if x.isNaN then y else if y.isNaN then x else if x < y then y else x

/-- The number that is picked over all others. -/
def extreme (f : Native) (pick : Float → Float → Float) : List Value → Native.Outcome Value
  | [] => f.wrongCount "at least 1" []
  | a :: more => do
      let x ← f.number a
      return .number ((← f.numbers more).foldl pick x)

/-! ## Comparison -/

/-- Whether all neighbours are equal. -/
def allSame : List Value → Bool
  | a :: b :: rest => a.same b && allSame (b :: rest)
  | _ => true

/-- Whether neighbours are all equal, compared with `expected`. -/
def equal (f : Native) (expected : Bool) (args : List Value) : Native.Outcome Value :=
  if args.isEmpty then f.wrongCount "at least 1" args else .ok (.bool (allSame args == expected))

/-- The order of two numbers or two strings; none when one is no number. -/
def relation (f : Native) : Value → Value → Native.Outcome (Option Ordering)
  | .number x, .number y =>
      if x < y then .ok (some .lt) else if x > y then .ok (some .gt)
      else if x == y then .ok (some .eq) else .ok none
  | .string a, .string b => .ok (some (compare a b))
  | .number _, other => .error (f.mismatch "a number" other)
  | .string _, other => .error (f.mismatch "a string" other)
  | other, _ => .error (f.mismatch "a number or string" other)

/-- Whether all neighbours are in an accepted order, up to the first two that are not. -/
def ordered (f : Native) (accept : Ordering → Bool) : List Value → Native.Outcome Bool
  | a :: b :: rest => do
      match ← relation f a b with
      | some ordering => if accept ordering then ordered f accept (b :: rest) else return false
      | none => return false
  | _ => return true

/-- Whether all neighbours stand in an accepted order. -/
def order (f : Native) (accept : Ordering → Bool) (args : List Value) : Native.Outcome Value := do
  if args.length < 2 then f.wrongCount "at least 2" args
  else return .bool (← ordered f accept args)

def not : List Value → Native.Outcome Value
  | [a] => .ok (.bool (!a.isTruthy))
  | args => Native.not.wrongCount "1" args

/-! ## Lists and maps -/

/-- The length of a list, a map or a string. -/
def len : List Value → Native.Outcome Value
  | [a] =>
      match a with
      | .list items => .ok (.number (Float.ofNat items.length))
      | .map entries => .ok (.number (Float.ofNat entries.length))
      | .string text => .ok (.number (Float.ofNat text.length))
      | .nil => .ok (.number 0)
      | other => .error (Native.len.mismatch "a list, map or string" other)
  | args => Native.len.wrongCount "1" args

def first : List Value → Native.Outcome Value
  | [a] => do return (← Native.first.items a).headD .nil
  | args => Native.first.wrongCount "1" args

def rest : List Value → Native.Outcome Value
  | [a] => do return .list (← Native.rest.items a).tail
  | args => Native.rest.wrongCount "1" args

def nth : List Value → Native.Outcome Value
  | [a, b] => do
      let items ← Native.nth.items a
      let i ← Native.nth.index b
      return (items[i]?).getD .nil
  | args => Native.nth.wrongCount "2" args

def cons : List Value → Native.Outcome Value
  | [a, b] => do return .list (a :: (← Native.cons.items b))
  | args => Native.cons.wrongCount "2" args

/-- The items of all lists. -/
def append (args : List Value) : Native.Outcome Value := do
  return .list (← args.mapM Native.append.items).flatten

/-- The item of a list or the entry of a map, or the given default. -/
def getOr (source place default : Value) : Native.Outcome Value := do
  match source with
  | .list items => return (items[← Native.get.index place]?).getD default
  | other =>
      let entries ← Native.get.entries other
      return (Keyed.find? (← Native.get.key place) entries).getD default

/-- The value at a key of a map or at an index of a list, or else the default. -/
def get : List Value → Native.Outcome Value
  | [a, b] => getOr a b .nil
  | [a, b, c] => getOr a b c
  | args => Native.get.wrongCount "2 to 3" args

/-- Writes keys and values in turn. -/
def assocAll (entries : List (Key × Value)) : List Value → Native.Outcome (List (Key × Value))
  | k :: v :: more => do assocAll (Keyed.insert (← Native.assoc.key k) v entries) more
  | _ => .ok entries

/-- The map with values put at keys. -/
def assoc (args : List Value) : Native.Outcome Value := do
  match args with
  | m :: k :: v :: more =>
      if more.length % 2 = 0 then return .map (← assocAll (← Native.assoc.entries m) (k :: v :: more))
      else Native.assoc.wrongCount "a map and key/value pairs" args
  | _ => Native.assoc.wrongCount "a map and key/value pairs" args

def keys : List Value → Native.Outcome Value
  | [a] => do return .list ((← Native.keys.entries a).map fun (key, _) => key.value)
  | args => Native.keys.wrongCount "1" args

/-! ## Texts, errors and types -/

/-- The contents of a string, any other value as it is shown. -/
def spell : Value → String
  | .string text => text
  | other => other.render

/-- The texts of all arguments in a row. -/
def str (args : List Value) : Native.Outcome Value :=
  .ok (.string (String.join (args.map spell)))

def upper : List Value → Native.Outcome Value
  | [a] => do return .string (String.ofList (Text.upper (← Native.upper.string a).toList))
  | args => Native.upper.wrongCount "1" args

def lower : List Value → Native.Outcome Value
  | [a] => do return .string (String.ofList (Text.lower (← Native.lower.string a).toList))
  | args => Native.lower.wrongCount "1" args

/-- An error value, which is not raised by making it. -/
def error : List Value → Native.Outcome Value
  | [a] => do return .error (← Native.error.string a) ""
  | [a, b] => do
      let name ← Native.error.string a
      return .error name (← Native.error.string b)
  | args => Native.error.wrongCount "1 to 2" args

def raise : List Value → Native.Outcome Value
  | [a] => .error a
  | args => Native.raise.wrongCount "1" args

def errorName : List Value → Native.Outcome Value
  | [a] => do return .string (← Native.errorName.problem a).1
  | args => Native.errorName.wrongCount "1" args

def errorMessage : List Value → Native.Outcome Value
  | [a] => do return .string (← Native.errorMessage.problem a).2
  | args => Native.errorMessage.wrongCount "1" args

def typeOf : List Value → Native.Outcome Value
  | [a] => .ok (.string a.type)
  | args => Native.typeOf.wrongCount "1" args

end Compute

end Exemplar
