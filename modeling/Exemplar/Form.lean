import Exemplar.Decimal
import Exemplar.Text.Visible

/-!
# Forms

The programs of the language as data, without their places in a text: atoms, bracketed groups and quotations.
-/

namespace Exemplar

/-- A form without parts. -/
inductive Atom where
  | nil
  | bool (b : Bool)
  | number (x : Float)
  | string (text : String)
  | keyword (name : String)
  | symbol (name : String)
  deriving DecidableEq

/-- The three pairs of brackets: calls, list literals, map literals. -/
inductive Bracket where
  | round
  | square
  | curly
  deriving DecidableEq, Repr

namespace Bracket

def opening : Bracket → Char
  | round => '('
  | square => '['
  | curly => '{'

def closing : Bracket → Char
  | round => ')'
  | square => ']'
  | curly => '}'

def ofOpening? (c : Char) : Option Bracket :=
  if c = '(' then some round else if c = '[' then some square else if c = '{' then some curly else none

def ofClosing? (c : Char) : Option Bracket :=
  if c = ')' then some round else if c = ']' then some square else if c = '}' then some curly else none

end Bracket

/-- A form: an atom, a group of forms in brackets, or a quoted form. -/
inductive Form where
  | atom (a : Atom)
  | group (bracket : Bracket) (items : List Form)
  | quote (inner : Form)

namespace Atom

def kind : Atom → String
  | nil => "nil"
  | bool _ => "bool"
  | number _ => "number"
  | string _ => "string"
  | keyword _ => "keyword"
  | symbol _ => "symbol"

/-- Numbers in programs keep the sign of zero. -/
def numberStyle : Decimal.Style := ⟨"inf", true⟩

def render : Atom → String
  | nil => "nil"
  | bool b => if b then "true" else "false"
  | number x => numberStyle.show x
  | string text => Text.quoteVisible text
  | keyword name => ":" ++ name
  | symbol name => name

end Atom

namespace Form

theorem smaller_item {bracket : Bracket} {items : List Form} {x : Form} (member : x ∈ items) :
    sizeOf x < sizeOf (group bracket items) := by
  have less := List.sizeOf_lt_of_mem member
  rw [group.sizeOf_spec]
  omega

/-- The name of a form's kind, as messages use it. -/
def kind : Form → String
  | atom a => a.kind
  | group .round _ => "form"
  | group .square _ => "list literal"
  | group .curly _ => "map literal"
  | quote _ => "quote"

def symbol? : Form → Option String
  | atom (.symbol name) => some name
  | _ => none

/-- The symbol at the head of a round group. -/
def head? : Form → Option String
  | group .round (first :: _) => first.symbol?
  | _ => none

mutual

/-- A form as program text, with single spaces between the items of a group. -/
def render : Form → String
  | atom a => a.render
  | group bracket items =>
      bracket.opening.toString ++ (renderAll items ++ bracket.closing.toString)
  | quote inner => "'" ++ render inner

/-- Forms separated by single spaces. -/
def renderAll : List Form → String
  | [] => ""
  | [item] => render item
  | item :: rest => render item ++ (" " ++ renderAll rest)

end

end Form

end Exemplar
