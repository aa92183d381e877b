import Exemplar.Text.Ranges

/-!
# Blank characters

White space in the sense of Unicode, used where comment text is read. The reader of programs knows only four
blanks and has its own class.
-/

namespace Exemplar.Text

/-- The ranges of the Unicode property White_Space. -/
def blankRanges : List (Nat × Nat) := [
  (0x9, 0xd), (0x20, 0x20), (0x85, 0x85), (0xa0, 0xa0), (0x1680, 0x1680), (0x2000, 0x200a),
  (0x2028, 0x2029), (0x202f, 0x202f), (0x205f, 0x205f), (0x3000, 0x3000)]

/-- Whether `c` is white space. -/
def isBlank (c : Char) : Bool := inRanges blankRanges c

/-- The text without its leading blanks. -/
def dropBlanks (text : List Char) : List Char := text.dropWhile isBlank

/-- The text without its leading and trailing blanks. -/
def trim (text : List Char) : List Char := (dropBlanks (dropBlanks text).reverse).reverse

theorem dropBlanks_cut (text : List Char) :
    ∃ left, text = left ++ dropBlanks text ∧ ∀ c ∈ left, isBlank c = true :=
  ⟨text.takeWhile isBlank, List.takeWhile_append_dropWhile.symm, List.all_eq_true.mp List.all_takeWhile⟩

theorem head_dropBlanks {text : List Char} {c : Char} (isHead : c ∈ (dropBlanks text).head?) : isBlank c = false := by
  have stops := List.head?_dropWhile_not isBlank text
  rw [dropBlanks] at isHead
  rw [Option.mem_def.mp isHead] at stops
  simpa using stops

theorem dropBlanks_append {left rest : List Char} (blank : ∀ c ∈ left, isBlank c = true)
    (ended : ∀ c ∈ rest.head?, isBlank c = false) : dropBlanks (left ++ rest) = rest := by
  rw [dropBlanks, List.dropWhile_append_of_pos blank]
  cases rest with
  | nil => rfl
  | cons c more => exact List.dropWhile_cons_of_neg (by simp [ended c rfl])

end Exemplar.Text
