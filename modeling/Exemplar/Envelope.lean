import Exemplar.Fault
import Exemplar.Text.Lines

/-!
# Module envelopes

The text around a program: none, a definition for programs that call `define-module`, or a scope of its own behind
which the queue is exported.
-/

namespace Exemplar

/-- What is put around a program before it is run. -/
inductive Envelope where
  | bare
  | amd
  | commonjs
  deriving DecidableEq, Repr

namespace Envelope

/-- The envelopes in the order in which they are looked for. -/
def all : List Envelope := [bare, amd, commonjs]

def name : Envelope → String
  | bare => "none"
  | amd => "amd"
  | commonjs => "commonjs"

def ofName (name : String) : Except Fault Envelope :=
  match all.find? (·.name == name) with
  | some envelope => .ok envelope
  | none => .error (.invalidOption "module" name)

/-- Whether the program itself makes and exports its queue. -/
def exportsQueue (envelope : Envelope) : Bool := envelope = commonjs

/-- What stands before a program that may call `define-module`. -/
def shim : List Char := "(define (define-module deps factory)\n  (factory))\n\n".toList

/-- What stands before and behind a program in a scope of its own. -/
def scopeOpening : List Char := "(define __doctest (doctest/queue))\n\n(let ()\n".toList

@[inherit_doc scopeOpening]
def scopeClosing : List Char := "\n  nil)\n\n(export! \"__doctest\" __doctest)\n".toList

def wrap (envelope : Envelope) (program : List Char) : List Char :=
  match envelope with
  | bare => program
  | amd => shim ++ program
  | commonjs => scopeOpening ++ Text.dropFinalBreak program ++ scopeClosing

end Envelope

end Exemplar
