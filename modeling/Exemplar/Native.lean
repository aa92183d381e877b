/-!
# Names of the native functions
-/

namespace Exemplar

/-- A function that every program starts with. -/
inductive Native where
  | add
  | sub
  | mul
  | div
  | mod
  | abs
  | min
  | max
  | equal
  | notEqual
  | less
  | greater
  | lessEqual
  | greaterEqual
  | not
  | list
  | len
  | first
  | rest
  | nth
  | cons
  | append
  | get
  | assoc
  | keys
  | map
  | filter
  | reduce
  | str
  | upper
  | lower
  | error
  | raise
  | errorName
  | errorMessage
  | typeOf
  | queue
  | enqueue
  deriving DecidableEq, Repr

namespace Native

def name : Native → String
  | add => "+"
  | sub => "-"
  | mul => "*"
  | div => "/"
  | mod => "mod"
  | abs => "abs"
  | min => "min"
  | max => "max"
  | equal => "="
  | notEqual => "not="
  | less => "<"
  | greater => ">"
  | lessEqual => "<="
  | greaterEqual => ">="
  | not => "not"
  | list => "list"
  | len => "len"
  | first => "first"
  | rest => "rest"
  | nth => "nth"
  | cons => "cons"
  | append => "append"
  | get => "get"
  | assoc => "assoc"
  | keys => "keys"
  | map => "map"
  | filter => "filter"
  | reduce => "reduce"
  | str => "str"
  | upper => "upper"
  | lower => "lower"
  | error => "error"
  | raise => "raise"
  | errorName => "error-name"
  | errorMessage => "error-message"
  | typeOf => "type-of"
  | queue => "doctest/queue"
  | enqueue => "enqueue!"

def all : List Native := [
  add, sub, mul, div, mod, abs, min, max, equal, notEqual, less, greater, lessEqual, greaterEqual, not, list, len,
  first, rest, nth, cons, append, get, assoc, keys, map, filter, reduce, str, upper, lower, error, raise, errorName,
  errorMessage, typeOf, queue, enqueue]

end Native

end Exemplar
