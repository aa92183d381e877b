import Exemplar.Position
import Exemplar.Stretch
import Exemplar.Text.Blank
import Exemplar.Text.Lines

/-!
# Comments

The comments of any text with their places, and the groups of comment lines in which examples are looked for.
-/

namespace Exemplar

/-- A comment: what stands between its marks, and where it stands with them. -/
structure Comment where
  isBlock : Bool
  text : List Char
  span : LineSpan
  deriving DecidableEq, Repr

/-- A line of comment text without its markup. -/
structure CommentLine where
  /-- Which comment of its kind the line belongs to. -/
  index : Nat
  text : List Char
  span : LineSpan
  deriving DecidableEq, Repr

namespace Comment

/-- The comments among stretches that start at `p`. -/
def ofStretches (p : Position) : List Stretch → List Comment
  | [] => []
  | stretch :: rest =>
      let q := p.advance stretch.text
      match stretch with
      | .block body => ⟨true, body, ⟨p, q⟩⟩ :: ofStretches q rest
      | .line body => ⟨false, body, ⟨p, q⟩⟩ :: ofStretches q rest
      | _ => ofStretches q rest

/-- The comments of a text, in order. -/
def scan (text : List Char) : List Comment := ofStretches .start (Stretch.all text)

def blocks (text : List Char) : List Comment := (scan text).filter (·.isBlock)

def lines (text : List Char) : List Comment := (scan text).filter (!·.isBlock)

/-- A line of a block comment without its gutter: blanks, one bar or star, blanks. -/
def dropGutter (line : List Char) : List Char :=
  match Text.dropBlanks line with
  | [] => []
  | c :: rest => if c = '|' ∨ c = '*' then Text.dropBlanks rest else c :: rest

/-- A line comment without its markup: blanks, more semicolons, blanks. -/
def dropSemicolons (text : List Char) : List Char :=
  Text.dropBlanks ((Text.dropBlanks text).dropWhile (· == ';'))

/-- The lines of one block comment. Of their places only the line is known. -/
def blockGroup (comment : Comment) (index : Nat) : List CommentLine :=
  (Text.lines comment.text).zipIdx.map fun (line, offset) =>
    ⟨index, dropGutter line, .ofLine (comment.span.start.line + offset)⟩

/-- Every block comment is a group. -/
def blockGroups (comments : List Comment) : List (List CommentLine) :=
  comments.zipIdx.map fun (comment, index) => blockGroup comment index

def commentLine (comment : Comment) (index : Nat) : CommentLine :=
  ⟨index, dropSemicolons comment.text, comment.span⟩

/-- Cuts line comments into groups: a comment on the line after the one before it belongs to the same group. -/
def groupLines : List CommentLine → List (List CommentLine)
  | [] => []
  | line :: rest =>
      match rest, groupLines rest with
      | next :: _, group :: groups =>
          if line.span.start.line + 1 = next.span.start.line then (line :: group) :: groups
          else [line] :: group :: groups
      | _, groups => [line] :: groups

def lineGroups (comments : List Comment) : List (List CommentLine) :=
  groupLines (comments.zipIdx.map fun (comment, index) => commentLine comment index)

end Comment

end Exemplar
