import Exemplar.Form

/-!
# Nodes

Forms together with the byte ranges they were read from.
-/

namespace Exemplar

/-- A range of bytes in a text, from `start` up to but not including `stop`. -/
structure Span where
  start : Nat
  stop : Nat
  deriving DecidableEq, Repr

def Span.size (span : Span) : Nat := span.stop - span.start

/-- A form with the span of every part. -/
inductive Node where
  | atom (span : Span) (a : Atom)
  | group (span : Span) (bracket : Bracket) (items : List Node)
  | quote (span : Span) (inner : Node)

namespace Node

def span : Node → Span
  | atom span _ => span
  | group span _ _ => span
  | quote span _ => span

mutual

def form : Node → Form
  | atom _ a => .atom a
  | group _ bracket items => .group bracket (forms items)
  | quote _ inner => .quote (form inner)

def forms : List Node → List Form
  | [] => []
  | item :: rest => form item :: forms rest

end

mutual

/-- The span of the first map literal with an odd number of forms, in the order in which the literals close. -/
def oddMap? : Node → Option Span
  | atom _ _ => none
  | quote _ inner => oddMap? inner
  | group span bracket items =>
      (oddMaps? items).or (if bracket = .curly ∧ items.length % 2 = 1 then some span else none)

/-- The first such literal in several nodes. -/
def oddMaps? : List Node → Option Span
  | [] => none
  | item :: rest => (oddMap? item).or (oddMaps? rest)

end

end Node

end Exemplar
