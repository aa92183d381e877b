import Exemplar.Dialect
import Exemplar.Harness
import Exemplar.Literate

/-!
# Instrumented programs

A program with the comments of its examples replaced by code. In plain text the examples in line comments come
first; the block comments are then looked for again and each that holds examples is replaced as a whole. Literate
text is replaced line by line and then compiled.
-/

namespace Exemplar.Instrument

/-- The text with a line feed for every line end. -/
def unifyBreaks : List Char → List Char
  | [] => []
  | '\r' :: '\n' :: rest => '\n' :: unifyBreaks rest
  | c :: rest => (if c = '\r' then '\n' else c) :: unifyBreaks rest

/-- The text without a first line that names an interpreter; the end of that line stays. -/
def dropInterpreter : List Char → List Char
  | '#' :: '!' :: rest => rest.dropWhile (· != '\n')
  | text => text

/-- The text as it is worked on. -/
def normalize (text : List Char) : List Char := dropInterpreter (unifyBreaks text)

/-- The text from `cursor` on, with each example replaced from its beginning to its end. -/
def spliceFrom (text : List Char) (cursor : Position) : List Example → List Char
  | [] => Position.slice text cursor .fileEnd
  | e :: rest =>
      Position.slice text cursor e.input.span.start ++ (Harness.code 0 e ++ spliceFrom text e.stop rest)

/-- The text with the examples of its line comments replaced. -/
def spliceLines (text : List Char) (examples : List Example) : List Char :=
  spliceFrom text .start examples

/-- The code for the examples of the block comment with the given number. -/
def blockCode (examples : List Example) (index : Nat) : List (List Char) :=
  (examples.filter (·.commentIndex == index)).map (Harness.code 0)

/-- The text from `cursor` on, with each block comment that holds examples replaced. -/
def spliceBlocks (text : List Char) (examples : List Example) (cursor : Position) :
    List (Comment × Nat) → List Char
  | [] => Position.slice text cursor .fileEnd
  | (block, index) :: rest =>
      match blockCode examples index with
      | [] => spliceBlocks text examples cursor rest
      | code =>
          Position.slice text cursor block.span.start ++
            (Text.joinLines code ++ spliceBlocks text examples block.span.stop rest)

def plain (lead text : List Char) : Except Fault (List Char) :=
  let blocks := Comment.blocks text
  let blockExamples := Example.ofGroups lead (Comment.blockGroups blocks)
  let spliced := spliceLines text (Example.inLines lead text)
  if blockExamples.isEmpty then .ok spliced
  else
    let found := Comment.blocks spliced
    if found.length = blocks.length then
      .ok (spliceBlocks spliced blockExamples .start found.zipIdx)
    else .error (.lostBlocks found.length blocks.length)

/-- Lines with their numbers, cut where comment lines and other lines meet. -/
def chunks (lines : List (List Char × Nat)) : List (List (List Char × Nat)) :=
  lines.splitBy fun (line, _) (next, _) => Literate.isCommentLine line == Literate.isCommentLine next

def chunkLines (chunk : List (List Char × Nat)) : List CommentLine :=
  chunk.zipIdx.filterMap fun ((line, number), index) => Literate.commentLine? index number line

/-- The lines that replace a chunk: the code of its examples, each indented like the line that opens it, or the
chunk itself when it holds none. -/
def chunkCode (lead : List Char) (lines : List (List Char)) (chunk : List (List Char × Nat)) :
    List (List Char) :=
  match Example.ofGroup lead (chunkLines chunk) with
  | [] => chunk.map (·.1)
  | examples =>
      examples.map fun e =>
        let opener := (lines[e.input.span.start.line - 1]?).getD []
        Harness.code (Literate.indent opener).length e

/-- Instruments literate text, which stays literate. -/
def literate (lead text : List Char) : List Char :=
  let lines := Text.lines (Text.dropFinalBreak text)
  let replaced := (chunks (lines.zipIdx 1)).flatMap (chunkCode lead lines)
  Text.joinLines replaced ++ (if text.getLast? = some '\n' then ['\n'] else [])

def program (dialect : Dialect) (lead text : List Char) : Except Fault (List Char) :=
  let text := normalize text
  match dialect with
  | .sx => plain lead text
  | .sxl => (Literate.compile (literate lead text)).mapError .malformed

end Exemplar.Instrument
