import Exemplar.Lexeme
import Exemplar.Node
import Exemplar.Text.Bytes

/-!
# Reading programs

A text is read lexeme by lexeme on a stack of open groups and quotations. Reading stops at the first lexeme that
cannot come next. A text that reads to its end is a program when all its map literals have an even number of forms.
-/

namespace Exemplar

/-- Why a text is no program. -/
inductive SyntaxFault where
  /-- The lexeme at `offset`, or the end of the text, cannot come next; `nested` inside a group or after a quote. -/
  | unexpected (offset : Nat) (nested : Bool)
  /-- A map literal has a key without a value. -/
  | oddMap (span : Span)
  /-- A string of literate text that opens at `offset` is never closed. -/
  | openString (offset : Nat)
  deriving DecidableEq, Repr

namespace SyntaxFault

/-- Where the fault is, with a size of zero when it is a place between two characters. -/
def span : SyntaxFault → Span
  | unexpected offset _ => ⟨offset, offset⟩
  | oddMap span => span
  | openString offset => ⟨offset, offset⟩

def message : SyntaxFault → String
  | unexpected 0 _ => "expected program"
  | unexpected _ false =>
      "expected EOI, list, vector, map, quote, number, boolean, nil, keyword, symbol, or string"
  | unexpected _ true =>
      "expected list, vector, map, quote, number, boolean, nil, keyword, symbol, or string"
  | oddMap _ => "map literal needs an even number of forms"
  | openString 0 => "expected sxl_source"
  | openString _ => "expected EOI, sxl_string, sxl_comment, or sxl_text"

end SyntaxFault

namespace Atom

/-- A number: an optional minus, digits, and optionally a point with more digits. -/
def number? (word : List Char) : Option Float :=
  let (negative, magnitude) :=
    match word with
    | '-' :: rest => (true, rest)
    | _ => (false, word)
  let whole := magnitude.takeWhile (·.isDigit)
  if whole = [] then none
  else
    match magnitude.dropWhile (·.isDigit) with
    | [] => some (Decimal.read negative whole [])
    | '.' :: places =>
        if places ≠ [] ∧ places.all (·.isDigit) then some (Decimal.read negative whole places) else none
    | _ => none

/-- The atom that a word spells. Words that begin like none of them spell nothing. -/
def ofWord? (word : List Char) : Option Atom :=
  match number? word with
  | some x => some (number x)
  | none =>
      if word = "true".toList then some (bool true)
      else if word = "false".toList then some (bool false)
      else if word = "nil".toList then some nil
      else
        match word with
        | [] => none
        | ':' :: name => if name = [] then none else some (keyword (String.ofList name))
        | c :: _ => if Lexeme.isSymbolStart c then some (symbol (String.ofList word)) else none

end Atom

namespace Reader

/-- Blanks between lexemes. -/
def isSpace (c : Char) : Bool := c == ' ' || c == '\t' || c == '\r' || c == '\n'

/-- What has been opened and not yet closed. -/
inductive Opener where
  | bracket (bracket : Bracket)
  | quote
  deriving DecidableEq, Repr

/-- An open group or quotation: where it opened and its items so far, last first. -/
structure Pending where
  opener : Opener
  start : Nat
  items : List Node

/-- The state of reading before the byte `offset`: what is open, innermost first, and the finished nodes outside of
everything, last first. -/
structure Reading where
  offset : Nat
  stack : List Pending
  done : List Node

namespace Reading

def initial : Reading := ⟨0, [], []⟩

/-- Adds a finished node where it belongs. It also finishes the quotations it stands directly behind. -/
def place (node : Node) (done : List Node) : List Pending → List Pending × List Node
  | [] => ([], node :: done)
  | ⟨.quote, start, _⟩ :: rest => place (.quote ⟨start, node.span.stop⟩ node) done rest
  | ⟨.bracket bracket, start, items⟩ :: rest => (⟨.bracket bracket, start, node :: items⟩ :: rest, done)

/-- Goes on to `next`. -/
def skip (reading : Reading) (next : Nat) : Reading := { reading with offset := next }

/-- Goes on to `next` behind a finished node. -/
def push (reading : Reading) (node : Node) (next : Nat) : Reading :=
  let (stack, done) := place node reading.done reading.stack
  ⟨next, stack, done⟩

/-- Goes on to `next` inside a new group or quotation. -/
def descend (reading : Reading) (opener : Opener) (next : Nat) : Reading :=
  { reading with offset := next, stack := ⟨opener, reading.offset, []⟩ :: reading.stack }

/-- The fault that the lexeme at the offset, or the end, cannot come next. -/
def fault (reading : Reading) : SyntaxFault := .unexpected reading.offset (!reading.stack.isEmpty)

/-- Closes the innermost group when it has the right bracket. -/
def close (reading : Reading) (bracket : Bracket) (next : Nat) : Except SyntaxFault Reading :=
  match reading.stack with
  | ⟨.bracket opened, start, items⟩ :: rest =>
      if opened = bracket then
        .ok ({ reading with stack := rest }.push (.group ⟨start, next⟩ bracket items.reverse) next)
      else .error reading.fault
  | _ => .error reading.fault

def step (reading : Reading) (lexeme : Lexeme) : Except SyntaxFault Reading :=
  let next := reading.offset + Text.byteLength lexeme.text
  let atom (a : Atom) := reading.push (.atom ⟨reading.offset, next⟩ a) next
  match lexeme with
  | .block _ | .line _ => .ok (reading.skip next)
  | .string body => .ok (atom (.string (String.ofList (Text.decode body))))
  | .word word =>
      match Atom.ofWord? word with
      | some a => .ok (atom a)
      | none => .error reading.fault
  | .mark c =>
      if isSpace c then .ok (reading.skip next)
      else if c = '\'' then .ok (reading.descend .quote next)
      else
        match Bracket.ofOpening? c with
        | some bracket => .ok (reading.descend (.bracket bracket) next)
        | none =>
            match Bracket.ofClosing? c with
            | some bracket => reading.close bracket next
            | none => .error reading.fault

def steps (reading : Reading) : List Lexeme → Except SyntaxFault Reading
  | [] => .ok reading
  | lexeme :: rest => do (← reading.step lexeme).steps rest

/-- The nodes, when nothing is open at the end. -/
def finish (reading : Reading) : Except SyntaxFault (List Node) :=
  if reading.stack.isEmpty then .ok reading.done.reverse else .error reading.fault

end Reading

/-- The nodes of a text, whatever its map literals hold. -/
def nodes (text : List Char) : Except SyntaxFault (List Node) := do
  (← Reading.initial.steps (Lexeme.all text)).finish

end Reader

/-- The top-level nodes of a program. -/
def Node.read (text : String) : Except SyntaxFault (List Node) := do
  let nodes ← Reader.nodes text.toList
  match Node.oddMaps? nodes with
  | some span => .error (.oddMap span)
  | none => .ok nodes

/-- The top-level forms of a program. -/
def Form.read (text : String) : Except SyntaxFault (List Form) :=
  (Node.read text).map Node.forms

end Exemplar
