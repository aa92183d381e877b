import Exemplar.Example
import Exemplar.Reader

/-!
# Code for examples

The code that stands in for an example: it puts the input and the expected result, each as a function without
parameters, into the queue `__doctest`. A declaration stands for itself.
-/

namespace Exemplar.Harness

def queueName : String := "__doctest"

/-- Whether a text is a program whose first form is a definition. -/
def isDeclaration (text : List Char) : Bool :=
  match Form.read (String.ofList text) with
  | .ok (first :: _) => first.head? == some "define"
  | _ => false

/-- How a call that puts a map into the queue begins. -/
def opening : List Char := "(enqueue! __doctest ".toList ++ ['{']

/-- How a call that puts a map into the queue ends. -/
def closing : List Char := "  )".toList ++ ['}', ')']

/-- A call that puts a map into the queue: the given entries, and a function with the body `value`. The value stands
on a line of its own, so that a comment at its end hides nothing. -/
def enqueue (pad : List Char) (entries : List (List Char)) (value : List Char) : List Char :=
  Text.joinLines (
    [pad ++ opening] ++
    entries.map (fun entry => pad ++ "  ".toList ++ entry) ++
    [pad ++ "  :thunk (fn ()".toList,
     pad ++ "    ".toList ++ value,
     pad ++ closing])

def inputCode (pad : List Char) (input : Fragment) : List Char :=
  enqueue pad [":type :input".toList] input.value

def outputCode (pad : List Char) (output : Fragment) (negate : Bool) : List Char :=
  enqueue pad
    [":type :output".toList,
     ":line ".toList ++ Decimal.natDigits output.span.start.line,
     ":negate ".toList ++ (if negate then "true".toList else "false".toList)]
    output.value

/-- The code for an example, indented by `width` spaces. -/
def code (width : Nat) (e : Example) : List Char :=
  let pad := List.replicate width ' '
  if isDeclaration e.input.value then pad ++ e.input.value
  else
    match e.output with
    | none => inputCode pad e.input
    | some output => inputCode pad e.input ++ '\n' :: outputCode pad output e.negate

end Exemplar.Harness
