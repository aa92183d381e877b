import Exemplar.Form
import Exemplar.Keyed
import Exemplar.Native
import Exemplar.Text.Quoted

/-!
# Values

What programs compute with, when two values are equal, and how a value is shown.
-/

namespace Exemplar

/-- A key of a map. Keywords come before strings. -/
inductive Key where
  | keyword (name : String)
  | string (text : String)
  deriving DecidableEq, Repr

instance : Ord Key where
  compare
    | .keyword a, .keyword b => compare a b
    | .keyword _, .string _ => .lt
    | .string _, .keyword _ => .gt
    | .string a, .string b => compare a b

/-- A function of the program: its code and the frame it was made in. Functions differ when their `id` does. -/
structure Closure where
  id : Nat
  name : Option String
  params : List String
  /-- The parameter that takes all further arguments. -/
  rest : Option String
  body : List Form
  scope : Nat

/-- A value. The entries of a map stand in the order of their keys; a queue is known by its number in the store. -/
inductive Value where
  | nil
  | bool (b : Bool)
  | number (x : Float)
  | string (text : String)
  | keyword (name : String)
  | symbol (name : String)
  | list (items : List Value)
  | map (entries : List (Key × Value))
  | closure (c : Closure)
  | native (f : Native)
  | error (name message : String)
  | queue (id : Nat)

namespace Value

instance : Inhabited Value := ⟨nil⟩

def type : Value → String
  | nil => "nil"
  | bool _ => "bool"
  | number _ => "number"
  | string _ => "string"
  | keyword _ => "keyword"
  | symbol _ => "symbol"
  | list _ => "list"
  | map _ => "map"
  | closure _ | native _ => "fn"
  | error _ _ => "error"
  | queue _ => "queue"

/-- Everything but `nil` and `false` counts as true. -/
def isTruthy : Value → Bool
  | nil | bool false => false
  | _ => true

def isCallable : Value → Bool
  | closure _ | native _ => true
  | _ => false

def key? : Value → Option Key
  | keyword name => some (.keyword name)
  | string text => some (.string text)
  | _ => none

/-- The value of a map under a keyword. -/
def entry? (name : String) : Value → Option Value
  | map entries => Keyed.find? (.keyword name) entries
  | _ => none

/-- Equality of numbers, for which all values that are no number are one. -/
def sameNumber (x y : Float) : Bool := x == y || (x.isNaN && y.isNaN)

mutual

/-- Deep equality. Functions of the program and queues are equal only to themselves. -/
def same : Value → Value → Bool
  | nil, nil => true
  | bool a, bool b => a == b
  | number x, number y => sameNumber x y
  | string a, string b => a == b
  | keyword a, keyword b => a == b
  | symbol a, symbol b => a == b
  | list xs, list ys => sameItems xs ys
  | map xs, map ys => sameEntries xs ys
  | closure f, closure g => f.id == g.id
  | native f, native g => f == g
  | error n m, error n' m' => n == n' && m == m'
  | queue i, queue j => i == j
  | _, _ => false

def sameItems : List Value → List Value → Bool
  | [], [] => true
  | x :: xs, y :: ys => same x y && sameItems xs ys
  | _, _ => false

def sameEntries : List (Key × Value) → List (Key × Value) → Bool
  | [], [] => true
  | (k, x) :: xs, (l, y) :: ys => k == l && same x y && sameEntries xs ys
  | _, _ => false

end

/-- Numbers that programs show have no sign on zero. -/
def numberStyle : Decimal.Style := ⟨"Infinity", false⟩

end Value

def Key.value : Key → Value
  | .keyword name => .keyword name
  | .string text => .string text

def Key.render : Key → String
  | .keyword name => ":" ++ name
  | .string text => Text.quote text

namespace Value

mutual

def render : Value → String
  | nil => "nil"
  | bool b => if b then "true" else "false"
  | number x => numberStyle.show x
  | string text => Text.quote text
  | keyword name => ":" ++ name
  | symbol name => name
  | list items => "[" ++ (renderItems items ++ "]")
  | map entries => Bracket.curly.opening.toString ++ (renderEntries entries ++ Bracket.curly.closing.toString)
  | closure c =>
      match c.name with
      | some name => "<fn " ++ name ++ ">"
      | none => "<fn>"
  | native f => "<native " ++ f.name ++ ">"
  | error name message => "(error " ++ Text.quote name ++ " " ++ Text.quote message ++ ")"
  | queue _ => "<queue>"

/-- Values separated by single spaces. -/
def renderItems : List Value → String
  | [] => ""
  | [item] => render item
  | item :: rest => render item ++ (" " ++ renderItems rest)

/-- Keys and values separated by single spaces. -/
def renderEntries : List (Key × Value) → String
  | [] => ""
  | [(key, value)] => key.render ++ (" " ++ render value)
  | (key, value) :: rest => key.render ++ (" " ++ (render value ++ (" " ++ renderEntries rest)))

end

/-- How a raised value is shown, with or without the message of an error. -/
def renderRaised (withMessage : Bool) : Value → String
  | error name message => if withMessage then s!"! {name}: {message}" else s!"! {name}"
  | value => s!"! {value.render}"

end Value

mutual

/-- A form as data. -/
def Form.quoted : Form → Value
  | .atom .nil => .nil
  | .atom (.bool b) => .bool b
  | .atom (.number x) => .number x
  | .atom (.string text) => .string text
  | .atom (.keyword name) => .keyword name
  | .atom (.symbol name) => .symbol name
  | .group .curly items => .map (Form.quotedEntries [] items)
  | .group _ items => .list (Form.quotedItems items)
  | .quote inner => .list [.symbol "quote", inner.quoted]

def Form.quotedItems : List Form → List Value
  | [] => []
  | item :: rest => item.quoted :: Form.quotedItems rest

/-- Forms taken in pairs as entries of a map. A form that is no key counts as the string that shows it. -/
def Form.quotedEntries (entries : List (Key × Value)) : List Form → List (Key × Value)
  | key :: value :: rest =>
      let key := key.quoted
      let entry := key.key?.getD (.string key.render)
      Form.quotedEntries (Keyed.insert entry value.quoted entries) rest
  | _ => entries

end

end Exemplar
