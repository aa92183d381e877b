import Exemplar.Lexeme

/-!
# Stretches

How a text is cut when only its comments are asked for: strings and comments, longest runs of code between them, and
single characters where a mark is left open. Any text is cut up to its end, also one that is no program.
-/

namespace Exemplar

/-- A piece of a text that is scanned for comments. Strings and comments hold what stands between their marks. -/
inductive Stretch where
  | string (body : List Char)
  | block (body : List Char)
  | line (body : List Char)
  | code (run : List Char)
  | single (c : Char)
  deriving DecidableEq, Repr

namespace Stretch

def text : Stretch → List Char
  | string body => '"' :: (body ++ ['"'])
  | block body => '#' :: '|' :: (body ++ ['|', '#'])
  | line body => ';' :: body
  | code run => run
  | single c => [c]

/-- Whether a text begins as a string or a comment does. -/
def isMarked : List Char → Bool
  | '"' :: _ => true
  | ';' :: _ => true
  | '#' :: '|' :: _ => true
  | _ => false

/-- The longest run of characters none of which begins as a string or a comment does. -/
def codeRun : List Char → List Char
  | [] => []
  | c :: rest => if isMarked (c :: rest) then [] else c :: codeRun rest

def string? : List Char → Option Stretch
  | '"' :: rest => (Text.closeQuote rest).map fun (body, _) => string body
  | _ => none

def block? : List Char → Option Stretch
  | '#' :: '|' :: rest => (Lexeme.closeBlock rest).map fun (body, _) => block body
  | _ => none

def line? : List Char → Option Stretch
  | ';' :: rest => some (line (rest.takeWhile (!Lexeme.isLineBreak ·)))
  | _ => none

def code? (text : List Char) : Option Stretch :=
  match codeRun text with
  | [] => none
  | c :: run => some (code (c :: run))

def single? : List Char → Option Stretch
  | c :: _ => some (single c)
  | [] => none

/-- What is taken from the front of a text: the first of five alternatives that applies. -/
def first? (text : List Char) : Option Stretch :=
  string? text <|> block? text <|> line? text <|> code? text <|> single? text

/-- The stretches of a text for as long as an alternative applies, after `skip` characters that belong to a stretch
already taken. -/
def scan : (skip : Nat) → List Char → List Stretch
  | _, [] => []
  | skip + 1, _ :: rest => scan skip rest
  | 0, c :: rest =>
      match first? (c :: rest) with
      | some stretch => stretch :: scan (stretch.text.length - 1) rest
      | none => []

def all (text : List Char) : List Stretch := scan 0 text

end Stretch

end Exemplar
