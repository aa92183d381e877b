/-!
# Quoted text

A text between double quotes. Writing escapes the quote, the backslash and three controls; reading gives every
escaped character, so that reading what was written is the text itself.
-/

namespace Exemplar.Text

/-- How one character is written between quotes. -/
def escape : Char → List Char
  | '"' => ['\\', '"']
  | '\\' => ['\\', '\\']
  | '\n' => ['\\', 'n']
  | '\t' => ['\\', 't']
  | '\r' => ['\\', 'r']
  | c => [c]

/-- What a character means after a backslash. -/
def unescape : Char → Char
  | 'n' => '\n'
  | 't' => '\t'
  | 'r' => '\r'
  | c => c

/-- The body of a quoted text, between the quotes. -/
def encode (text : List Char) : List Char := text.flatMap escape

/-- The text that a body stands for. A backslash at the very end stands for itself. -/
def decode : List Char → List Char
  | [] => []
  | '\\' :: c :: rest => unescape c :: decode rest
  | c :: rest => c :: decode rest

def quote (text : String) : String :=
  String.ofList ('"' :: encode text.toList ++ ['"'])

/-- Splits at the first quote that no backslash escapes: the body before it and the text after it. -/
def closeQuote : List Char → Option (List Char × List Char)
  | [] => none
  | '"' :: rest => some ([], rest)
  | '\\' :: c :: rest => (closeQuote rest).map fun (body, after) => ('\\' :: c :: body, after)
  | ['\\'] => none
  | c :: rest => (closeQuote rest).map fun (body, after) => (c :: body, after)

theorem escape_unescape (c : Char) (rest : List Char) :
    decode (escape c ++ rest) = c :: decode rest := by
  unfold escape
  split <;> simp_all [decode, unescape]

theorem decode_encode (text : List Char) : decode (encode text) = text := by
  induction text with
  | nil => rfl
  | cons c rest ih =>
      rw [encode, List.flatMap_cons, escape_unescape]
      exact congrArg (c :: ·) ih

end Exemplar.Text
