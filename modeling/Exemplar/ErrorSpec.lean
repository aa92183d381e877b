import Exemplar.Text.Blank
import Exemplar.Text.Quoted

/-!
# Expected errors

The shorthand `! Name` or `! Name: message` for an error that an example should raise, and the expression that
builds that error.
-/

namespace Exemplar

/-- The name of an expected error and, when it is given, its message. -/
structure ErrorSpec where
  name : List Char
  message : Option (List Char)
  deriving DecidableEq, Repr

namespace ErrorSpec

/-- The text without one leading space. -/
def dropSpace : List Char → List Char
  | ' ' :: rest => rest
  | text => text

/-- Reads the shorthand. The name ends at the first colon; the message behind it is one line. -/
def ofText? : List Char → Option ErrorSpec
  | '!' :: rest =>
      let text := dropSpace rest
      let name := Text.trim (text.takeWhile (· != ':'))
      match text.dropWhile (· != ':') with
      | [] => some ⟨name, none⟩
      | _ :: after =>
          let message := dropSpace after
          if message.contains '\n' then none else some ⟨name, some message⟩
  | _ => none

def literal (text : List Char) : List Char := '"' :: Text.encode text ++ ['"']

def expression (spec : ErrorSpec) : List Char :=
  match spec.message with
  | none => "(error ".toList ++ literal spec.name ++ [')']
  | some message => "(error ".toList ++ literal spec.name ++ ' ' :: literal message ++ [')']

end ErrorSpec

end Exemplar
