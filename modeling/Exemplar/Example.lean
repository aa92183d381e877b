import Exemplar.Comment
import Exemplar.ErrorSpec

/-!
# Examples in comments

An example is a line marked `>` with its input, continued by lines marked with dots, and the line after it with the
expected result, continued likewise. Lines that lack the required beginning are passed over as if they were not there.
-/

namespace Exemplar

/-- A text taken from comment lines, and the lines it was taken from. -/
structure Fragment where
  value : List Char
  span : LineSpan
  deriving DecidableEq, Repr

/-- An example: its input and the expected result. -/
structure Example where
  /-- The last comment that a line of the example belongs to. -/
  commentIndex : Nat
  /-- Whether the result is an error that should be raised. -/
  negate : Bool
  input : Fragment
  output : Option Fragment
  deriving DecidableEq, Repr

/-- The fragment continued by one more line. -/
def Fragment.extend (fragment : Fragment) (body : List Char) (stop : Position) : Fragment :=
  ⟨fragment.value ++ '\n' :: body, ⟨fragment.span.start, stop⟩⟩

/-- What a comment line says, with the text behind its mark. -/
inductive Marker where
  | input (body : List Char)
  | continuation (body : List Char)
  | plain (body : List Char)
  deriving DecidableEq, Repr

/-- Reads the mark of a line. A line that lacks the beginning `lead`, or goes on behind a line feed, says nothing. -/
def Marker.ofLine? (lead text : List Char) : Option Marker :=
  if lead.isPrefixOf text then
    let rest := Text.dropBlanks (text.drop lead.length)
    if rest.contains '\n' then none
    else
      match rest with
      | '>' :: body => some (.input (ErrorSpec.dropSpace body))
      | '.' :: more => some (.continuation (ErrorSpec.dropSpace (more.dropWhile (· == '.'))))
      | _ => some (.plain rest)
  else none

namespace Example

/-- Where a continuation goes. -/
inductive Phase where
  | idle
  | input
  | output
  deriving DecidableEq, Repr

/-- The place behind the whole example. -/
def stop (e : Example) : Position :=
  match e.output with
  | some output => output.span.stop
  | none => e.input.span.stop

/-- The example with the part that `phase` names continued by `line`. -/
def extend (e : Example) (phase : Phase) (body : List Char) (line : CommentLine) : Example :=
  match phase, e.output with
  | .input, _ =>
      { e with input := e.input.extend body line.span.stop, commentIndex := line.index }
  | .output, some output =>
      { e with output := some (output.extend body line.span.stop), commentIndex := line.index }
  | _, _ => e

/-- Takes one line into account. The examples so far stand last first. -/
def step (lead : List Char) (state : Phase × List Example) (line : CommentLine) : Phase × List Example :=
  let (phase, examples) := state
  match Marker.ofLine? lead line.text with
  | none => (phase, examples)
  | some (.input body) => (.input, ⟨line.index, false, ⟨body, line.span⟩, none⟩ :: examples)
  | some (.continuation body) =>
      match examples with
      | [] => (phase, [])
      | last :: earlier => (phase, last.extend phase body line :: earlier)
  | some (.plain body) =>
      if phase = .input ∧ body ≠ [] then
        match examples with
        | [] => (.output, [])
        | last :: earlier =>
            (.output, { last with commentIndex := line.index, output := some ⟨body, line.span⟩ } :: earlier)
      else (.idle, examples)

/-- The example with the shorthand for an expected error turned into an expression. -/
def normalize (e : Example) : Example :=
  match e.output with
  | none => { e with negate := false }
  | some output =>
      match ErrorSpec.ofText? output.value with
      | some spec => { e with negate := true, output := some { output with value := spec.expression } }
      | none => { e with negate := false }

def ofGroup (lead : List Char) (group : List CommentLine) : List Example :=
  (group.foldl (step lead) (.idle, [])).2.reverse.map normalize

def ofGroups (lead : List Char) (groups : List (List CommentLine)) : List Example :=
  groups.flatMap (ofGroup lead)

def inLines (lead text : List Char) : List Example :=
  ofGroups lead (Comment.lineGroups (Comment.lines text))

def inBlocks (lead text : List Char) : List Example :=
  ofGroups lead (Comment.blockGroups (Comment.blocks text))

end Example

end Exemplar
