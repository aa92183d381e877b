import Exemplar.Text.Quoted

/-!
# Lexemes

Every text, also one that is no program, is cut into lexemes that together give back the text: strings, comments,
words and single characters. A quote mark or a comment mark that nothing closes is a single character.
-/

namespace Exemplar

/-- A piece of a text. Strings and comments hold what stands between their marks. -/
inductive Lexeme where
  | string (body : List Char)
  | block (body : List Char)
  | line (body : List Char)
  | word (text : List Char)
  | mark (c : Char)
  deriving DecidableEq, Repr

namespace Lexeme

def text : Lexeme → List Char
  | string body => '"' :: (body ++ ['"'])
  | block body => '#' :: '|' :: (body ++ ['|', '#'])
  | line body => ';' :: body
  | word text => text
  | mark c => [c]

/-- Characters a symbol may begin with. -/
def isSymbolStart (c : Char) : Bool :=
  c.isAlpha || "_+-*/<>=!?%&$".toList.contains c

/-- Characters that symbols, keywords and numbers consist of. -/
def isSymbolChar (c : Char) : Bool :=
  isSymbolStart c || c.isDigit || c == '.' || c == ':'

/-- Whether `c` ends a line comment. -/
def isLineBreak (c : Char) : Bool := c == '\n' || c == '\r'

/-- Splits at the first `|#`: the body before it and the text after it. -/
def closeBlock : List Char → Option (List Char × List Char)
  | [] => none
  | '|' :: '#' :: rest => some ([], rest)
  | c :: rest => (closeBlock rest).map fun (body, after) => (c :: body, after)

/-- The lexeme at the start of the text `c :: rest`. -/
def first (c : Char) (rest : List Char) : Lexeme :=
  if c = '"' then
    match Text.closeQuote rest with
    | some (body, _) => string body
    | none => mark c
  else if c = ';' then line (rest.takeWhile (!isLineBreak ·))
  else if c = '#' then
    match rest with
    | '|' :: inner =>
        match closeBlock inner with
        | some (body, _) => block body
        | none => mark c
    | _ => mark c
  else if isSymbolChar c then word (c :: rest.takeWhile isSymbolChar)
  else mark c

/-- The lexemes of a text, after `skip` characters that belong to a lexeme already taken. -/
def scan : (skip : Nat) → List Char → List Lexeme
  | _, [] => []
  | skip + 1, _ :: rest => scan skip rest
  | 0, c :: rest =>
      let lexeme := first c rest
      lexeme :: scan (lexeme.text.length - 1) rest

def all (text : List Char) : List Lexeme := scan 0 text

end Lexeme

end Exemplar
