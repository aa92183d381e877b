import Exemplar.Comment
import Exemplar.Reader

/-!
# Literate text

The literate dialect has comments from `#` to the end of the line instead of the two other kinds. Compiling it
replaces each mark that opens a comment by `;` and changes nothing else.
-/

namespace Exemplar.Literate

/-- What a character of literate text belongs to. -/
inductive Mode where
  | code
  | comment
  /-- A string that opened at the byte `start`; `escaped` right behind a backslash. -/
  | string (start : Nat) (escaped : Bool)
  deriving DecidableEq, Repr

/-- The mode behind the character `c` that stands at the byte `offset`. -/
def Mode.next (mode : Mode) (offset : Nat) (c : Char) : Mode :=
  match mode with
  | .code => if c = '"' then .string offset false else if c = '#' then .comment else .code
  | .comment => if Lexeme.isLineBreak c then .code else .comment
  | .string start true => .string start false
  | .string start false => if c = '"' then .code else .string start (c == '\\')

/-- The character that stands for `c` in plain text. -/
def Mode.plain (mode : Mode) (c : Char) : Char :=
  if mode = .code ∧ c = '#' then ';' else c

/-- Compiles a text that starts at the byte `offset` in the given mode. -/
def compileFrom (mode : Mode) (offset : Nat) : List Char → Except SyntaxFault (List Char)
  | [] =>
      match mode with
      | .string start _ => .error (.openString start)
      | _ => .ok []
  | c :: rest => do
      let compiled ← compileFrom (mode.next offset c) (offset + c.utf8Size) rest
      return mode.plain c :: compiled

def compile (text : List Char) : Except SyntaxFault (List Char) := compileFrom .code 0 text

/-- Blanks before a comment mark on its line. -/
def isIndent (c : Char) : Bool := c == ' ' || c == '\t'

def indent (line : List Char) : List Char := line.takeWhile isIndent

/-- Whether a line is a comment from its first character that is no indentation. -/
def isCommentLine (line : List Char) : Bool :=
  match line.dropWhile isIndent with
  | '#' :: _ => true
  | _ => false

/-- The indentation and the text of a comment line, without the mark and the blanks behind it. -/
def strip? (line : List Char) : Option (List Char × List Char) :=
  match line.dropWhile isIndent with
  | '#' :: rest =>
      let body := rest.dropWhile isIndent
      if body.contains '\n' then none else some (indent line, body)
  | _ => none

/-- The comment line that stands alone on line `number`. -/
def commentLine? (index number : Nat) (line : List Char) : Option CommentLine :=
  (strip? line).map fun (_, body) => ⟨index, body, ⟨⟨number, 0⟩, ⟨number, line.length⟩⟩⟩

end Exemplar.Literate
