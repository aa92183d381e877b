/-!
# Raw text

Arguments and the paths of files come from outside as bytes that need not be text. To be shown, every stretch of bytes
that is no text is replaced by a mark.
-/

namespace Exemplar

/-- Bytes that need not be text. -/
abbrev Raw := List UInt8

namespace Raw

def ofText (text : String) : Raw := text.toList.flatMap String.utf8EncodeChar

instance : Coe String Raw := ⟨ofText⟩

/-- The text that the bytes encode, if they encode one. -/
def text? (raw : Raw) : Option String := String.fromUTF8? ⟨raw.toArray⟩

/-- How many bytes follow the first byte of a character. -/
def followers (lead : UInt8) : Nat :=
  if 0xc2 ≤ lead ∧ lead ≤ 0xdf then 1
  else if 0xe0 ≤ lead ∧ lead ≤ 0xef then 2
  else if 0xf0 ≤ lead ∧ lead ≤ 0xf4 then 3
  else 0

/-- The least and the greatest byte behind the first byte of a character. Others would spell it longer than need be, or
spell no character. -/
def second (lead : UInt8) : UInt8 × UInt8 :=
  if lead = 0xe0 then (0xa0, 0xbf)
  else if lead = 0xed then (0x80, 0x9f)
  else if lead = 0xf0 then (0x90, 0xbf)
  else if lead = 0xf4 then (0x80, 0x8f)
  else (0x80, 0xbf)

/-- How many of at most `count` bytes go on with a character, the first of them in the given range. -/
def matching : (count : Nat) → (range : UInt8 × UInt8) → Raw → Nat
  | 0, _, _ | _, _, [] => 0
  | count + 1, (least, greatest), byte :: rest =>
      if least ≤ byte ∧ byte ≤ greatest then matching count (0x80, 0xbf) rest + 1 else 0

/-- The bytes behind the first `skip` ones, cut into characters and the longest beginnings of characters. -/
def chunks (skip : Nat) : Raw → List Raw
  | [] => []
  | lead :: rest =>
      match skip with
      | skip + 1 => chunks skip rest
      | 0 =>
          let size := matching (followers lead) (second lead) rest
          (lead :: rest.take size) :: chunks size rest

/-- The characters before the first bytes that are no text. -/
def leading (raw : Raw) : List Char :=
  ((chunks 0 raw).map text?).takeWhile (·.isSome) |>.flatMap fun text => (text.getD "").toList

/-- The bytes as text, with a mark for every chunk that is no character. -/
def shown (raw : Raw) : String :=
  raw.text?.getD (String.join ((chunks 0 raw).map fun chunk => chunk.text?.getD "\ufffd"))

end Raw

end Exemplar
