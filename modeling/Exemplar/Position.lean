import Exemplar.Text.Bytes

/-!
# Positions

Places in a text by line and column, and the text between two places. Lines count from one, columns count
characters from zero, and only a line feed ends a line.
-/

namespace Exemplar

structure Position where
  line : Nat
  column : Nat
  deriving DecidableEq, Repr

/-- The greatest line or column number. -/
def Position.bound : Nat := 18446744073709551615

namespace Position

/-- The place before the first character. -/
def start : Position := ⟨1, 0⟩

/-- The place behind every text. -/
def fileEnd : Position := ⟨bound, bound⟩

def ofLine (line : Nat) : Position := ⟨line, 0⟩

/-- Earlier line first, then earlier column. -/
instance : LT Position where
  lt p q := p.line < q.line ∨ (p.line = q.line ∧ p.column < q.column)

instance : LE Position where
  le p q := p.line < q.line ∨ (p.line = q.line ∧ p.column ≤ q.column)

instance (p q : Position) : Decidable (p < q) :=
  inferInstanceAs (Decidable (_ ∨ _))

instance (p q : Position) : Decidable (p ≤ q) :=
  inferInstanceAs (Decidable (_ ∨ _))

def render (p : Position) : String :=
  if p = fileEnd then "<end>" else s!"{p.line}:{p.column}"

/-- The place behind `c`, which stands at `p`. -/
def after (p : Position) (c : Char) : Position :=
  if c = '\n' then ⟨p.line + 1, 0⟩ else ⟨p.line, p.column + 1⟩

/-- The place behind a text that starts at `p`. -/
def advance (p : Position) (text : List Char) : Position := text.foldl after p

/-- How many characters stand before the place that is `breaks` line feeds and then `column` characters further. A
column behind the end of its line stands for that end, a line behind the text for the end of the text. -/
def indexAfter : (breaks column : Nat) → List Char → Nat
  | _, _, [] => 0
  | 0, 0, _ :: _ => 0
  | 0, column + 1, c :: rest => if c = '\n' then 1 else 1 + indexAfter 0 column rest
  | breaks + 1, column, c :: rest =>
      1 + indexAfter (if c = '\n' then breaks else breaks + 1) column rest

/-- How many characters of the text stand before `p`. Line zero is the beginning of the text. -/
def index (text : List Char) (p : Position) : Nat :=
  if p.line = 0 then 0
  else if p = fileEnd then text.length
  else indexAfter (p.line - 1) p.column text

/-- How many bytes of the text stand before `p`. -/
def byteOffset (text : List Char) (p : Position) : Nat :=
  Text.byteLength (text.take (index text p))

/-- The text from `p` up to `q`, empty unless `q` is behind `p`. -/
def slice (text : List Char) (p q : Position) : List Char :=
  if p = q then [] else (text.take (index text q)).drop (index text p)

end Position

structure LineSpan where
  start : Position
  stop : Position
  deriving DecidableEq, Repr

/-- The range that names a whole line and no columns. -/
def LineSpan.ofLine (line : Nat) : LineSpan := ⟨.ofLine line, .ofLine line⟩

end Exemplar
