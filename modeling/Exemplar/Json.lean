/-!
# JSON text

Enough of JSON to write reports: one item per line, two spaces for each level.
-/

namespace Exemplar

/-- The data that reports are made of. The members of an object keep their order. -/
inductive Json where
  | bool (b : Bool)
  | nat (n : Nat)
  | string (text : String)
  | array (items : List Json)
  | object (fields : List (String × Json))

namespace Json

def hexByte (n : Nat) : List Char := [Nat.digitChar (n / 16), Nat.digitChar (n % 16)]

/-- How one character is written in a string. -/
def escape (c : Char) : List Char :=
  if c = '"' then ['\\', '"']
  else if c = '\\' then ['\\', '\\']
  else if c = '\n' then ['\\', 'n']
  else if c = '\r' then ['\\', 'r']
  else if c = '\t' then ['\\', 't']
  else if c.toNat = 8 then ['\\', 'b']
  else if c.toNat = 12 then ['\\', 'f']
  else if c.toNat < 32 then ['\\', 'u', '0', '0'] ++ hexByte c.toNat
  else [c]

def quote (text : String) : String :=
  String.ofList ('"' :: text.toList.flatMap escape ++ ['"'])

/-- A line end and the indentation of a level. -/
def lineBreak (level : Nat) : String := String.ofList ('\n' :: List.replicate (2 * level) ' ')

mutual

/-- The text of a value whose own lines are indented by `level`. -/
def render (level : Nat) : Json → String
  | bool b => if b then "true" else "false"
  | nat n => toString n
  | string text => quote text
  | array [] => "[]"
  | array (item :: rest) =>
      "[" ++ (lineBreak (level + 1) ++ (render (level + 1) item ++ (renderItems (level + 1) rest ++
        (lineBreak level ++ "]"))))
  | object [] => String.ofList ['{', '}']
  | object ((name, value) :: rest) =>
      '{'.toString ++ (lineBreak (level + 1) ++ (quote name ++ (": " ++ (render (level + 1) value ++
        (renderFields (level + 1) rest ++ (lineBreak level ++ '}'.toString))))))

/-- Further items of an array. -/
def renderItems (level : Nat) : List Json → String
  | [] => ""
  | item :: rest => "," ++ (lineBreak level ++ (render level item ++ renderItems level rest))

/-- Further fields of an object. -/
def renderFields (level : Nat) : List (String × Json) → String
  | [] => ""
  | (name, value) :: rest =>
      "," ++ (lineBreak level ++ (quote name ++ (": " ++ (render level value ++ renderFields level rest))))

end

/-- The text of an array up to where one more item would begin. -/
def renderOpen : List Json → String
  | [] => "[" ++ lineBreak 1
  | item :: rest => "[" ++ (lineBreak 1 ++ (render 1 item ++ (renderItems 1 rest ++ ("," ++ lineBreak 1))))

end Json

end Exemplar
