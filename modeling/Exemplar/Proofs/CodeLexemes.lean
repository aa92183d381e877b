import Exemplar.Proofs.ExampleCode
import Exemplar.Proofs.Trivia

/-!
# The lexemes of the code for examples

What the code for an example consists of besides the texts of the example: marks and words, the last of them a bracket
unless the example is a declaration.
-/

namespace Exemplar

open Reader

namespace Lexeme

theorem all_ne_nil {text : List Char} (nonempty : text ≠ []) : all text ≠ [] := by
  intro empty
  rw [← texts_all text, empty] at nonempty
  exact nonempty rfl

theorem getLast_append_break {left right : List Char} (closed : ∀ lexeme ∈ all left, lexeme.isStray = false)
    (nonempty : right ≠ []) : (all (left ++ '\n' :: right)).getLast? = (all right).getLast? := by
  obtain ⟨first, others, same⟩ := List.exists_cons_of_ne_nil (all_ne_nil nonempty)
  rw [all_append_break closed, same, List.getLast?_append, List.getLast?_cons_cons, List.getLast?_cons]
  rfl

/-- Lines end as the last of them does. -/
theorem getLast_joinLines {lines : List (List Char)} {last : List Char}
    (closed : ∀ line ∈ lines, ∀ lexeme ∈ all line, lexeme.isStray = false) (final : lines.getLast? = some last)
    (nonempty : last ≠ []) : (all (Text.joinLines lines)).getLast? = (all last).getLast? := by
  induction lines with
  | nil => cases final
  | cons line rest ih =>
      cases rest with
      | nil => cases final; rfl
      | cons second more =>
          have later := ih (fun other member => closed other (by simp [member])) (by simpa using final)
          have some : Text.joinLines (second :: more) ≠ [] := by
            intro empty
            rw [empty, all_nil, List.getLast?_nil] at later
            exact all_ne_nil nonempty (List.getLast?_eq_none_iff.mp later.symm)
          rw [← later]
          exact getLast_append_break (closed line (by simp)) some

theorem forall_indent {holds : Lexeme → Prop} (width : Nat) {text : List Char} (space : holds (mark ' '))
    (within : ∀ lexeme ∈ all text, holds lexeme) :
    ∀ lexeme ∈ all (List.replicate width ' ' ++ text), holds lexeme := by
  intro lexeme member
  rw [all_spaces, List.mem_append] at member
  rcases member with isSpace | inText
  · rw [List.eq_of_mem_replicate isSpace]
    exact space
  · exact within lexeme inText

theorem forall_joinLines {holds : Lexeme → Prop} {lines : List (List Char)}
    (closed : ∀ line ∈ lines, ∀ lexeme ∈ all line, lexeme.isStray = false) (lineBreak : holds (mark '\n'))
    (within : ∀ line ∈ lines, ∀ lexeme ∈ all line, holds lexeme) :
    ∀ lexeme ∈ all (Text.joinLines lines), holds lexeme := by
  induction lines with
  | nil => exact fun lexeme member => nomatch member
  | cons line rest ih =>
      have later := ih (fun other member => closed other (by simp [member]))
        fun other member => within other (by simp [member])
      cases rest with
      | nil => exact within line (by simp)
      | cons second more =>
          rw [Text.joinLines_cons_cons, all_append_break (closed line (by simp))]
          exact List.forall_mem_append.mpr ⟨within line (by simp), List.forall_mem_cons.mpr ⟨lineBreak, later⟩⟩

/-- Brackets, blanks and words. -/
def isPlain : Lexeme → Bool
  | mark c => ['(', ')', '{', '}', ' ', '\n'].contains c
  | word characters => characters.all isSymbolChar
  | _ => false

theorem not_comment_of_plain {lexeme : Lexeme} (plain : lexeme.isPlain = true) : lexeme.isComment = false := by
  cases lexeme with
  | block body => cases plain
  | line body => cases plain
  | _ => rfl

theorem not_stray_of_plain {lexeme : Lexeme} (plain : lexeme.isPlain = true) : lexeme.isStray = false := by
  cases lexeme with
  | mark c =>
      rw [isStray, Bool.or_eq_false_iff, beq_eq_false_iff_ne, beq_eq_false_iff_ne]
      constructor <;> (rintro rfl; revert plain; decide)
  | _ => rfl

end Lexeme

namespace Harness

/-- The lines of the code that puts a map into the queue, with the value on one of them. -/
def pieces (width : Nat) (entries : List (List Char)) (value : List Char) : List (List Char) :=
  [List.replicate width ' ' ++ opening] ++
    entries.map (fun entry => List.replicate width ' ' ++ "  ".toList ++ entry) ++
    [List.replicate width ' ' ++ "  :thunk (fn ()".toList, List.replicate width ' ' ++ "    ".toList ++ value,
      List.replicate width ' ' ++ closing]

/-- The lines before the value. -/
def front (width : Nat) (entries : List (List Char)) : List (List Char) :=
  [List.replicate width ' ' ++ opening] ++
    entries.map (fun entry => List.replicate width ' ' ++ "  ".toList ++ entry) ++
    [List.replicate width ' ' ++ "  :thunk (fn ()".toList]

/-- The line behind the value. -/
def back (width : Nat) : List Char := List.replicate width ' ' ++ closing

theorem pieces_eq (width : Nat) (entries : List (List Char)) (value : List Char) :
    pieces width entries value = front width entries ++ [List.replicate (width + 4) ' ' ++ value, back width] := by
  have indented : List.replicate (width + 4) ' ' ++ value = List.replicate width ' ' ++ "    ".toList ++ value := by
    rw [← List.replicate_append_replicate]
    rfl
  rw [pieces, front, back, indented, List.append_assoc _ [_] [_, _]]
  rfl

theorem enqueue_eq (width : Nat) (entries : List (List Char)) (value : List Char) :
    enqueue (List.replicate width ' ') entries value = Text.joinLines (pieces width entries value) := rfl

variable {entries : List (List Char)} {value : List Char}

/-- What holds of brackets, blanks and words, and of the lexemes of the entries and of the value, holds on every line
of the code that puts a map into the queue. -/
theorem forall_enqueue_line {holds : Lexeme → Prop} (width : Nat)
    (plain : ∀ lexeme, lexeme.isPlain = true → holds lexeme)
    (given : ∀ entry ∈ entries, ∀ lexeme ∈ Lexeme.all entry, holds lexeme)
    (body : ∀ lexeme ∈ Lexeme.all value, holds lexeme) :
    ∀ line ∈ pieces width entries value, ∀ lexeme ∈ Lexeme.all line, holds lexeme := by
  have two : "  ".toList = List.replicate 2 ' ' := rfl
  have four : "    ".toList = List.replicate 4 ' ' := rfl
  have space := plain (.mark ' ') rfl
  have fixed {line : List Char} (isPlain : ∀ lexeme ∈ Lexeme.all line, lexeme.isPlain = true) :
      ∀ lexeme ∈ Lexeme.all (List.replicate width ' ' ++ line), holds lexeme :=
    Lexeme.forall_indent width space fun lexeme member => plain lexeme (isPlain lexeme member)
  intro line member
  simp only [pieces, List.mem_append, List.mem_map, List.mem_cons, List.not_mem_nil, or_false] at member
  rcases member with (rfl | ⟨entry, isEntry, rfl⟩) | rfl | rfl | rfl
  · exact fixed (by decide)
  · rw [List.append_assoc, two]
    exact Lexeme.forall_indent width space (Lexeme.forall_indent 2 space (given entry isEntry))
  · exact fixed (by decide)
  · rw [List.append_assoc, four]
    exact Lexeme.forall_indent width space (Lexeme.forall_indent 4 space body)
  · exact fixed (by decide)

theorem forall_enqueue {holds : Lexeme → Prop} (width : Nat) (plain : ∀ lexeme, lexeme.isPlain = true → holds lexeme)
    (plainEntries : ∀ entry ∈ entries, ∀ lexeme ∈ Lexeme.all entry, lexeme.isPlain = true)
    (closed : ∀ lexeme ∈ Lexeme.all value, lexeme.isStray = false) (body : ∀ lexeme ∈ Lexeme.all value, holds lexeme) :
    ∀ lexeme ∈ Lexeme.all (enqueue (List.replicate width ' ') entries value), holds lexeme :=
  Lexeme.forall_joinLines
    (forall_enqueue_line width (fun _ => Lexeme.not_stray_of_plain)
      (fun entry isEntry lexeme member => Lexeme.not_stray_of_plain (plainEntries entry isEntry lexeme member)) closed)
    (plain (.mark '\n') rfl)
    (forall_enqueue_line width plain
      (fun entry isEntry lexeme member => plain lexeme (plainEntries entry isEntry lexeme member)) body)

/-- The code that puts a map into the queue ends with a bracket. -/
theorem enqueue_last (width : Nat)
    (plainEntries : ∀ entry ∈ entries, ∀ lexeme ∈ Lexeme.all entry, lexeme.isPlain = true)
    (closed : ∀ lexeme ∈ Lexeme.all value, lexeme.isStray = false) :
    (Lexeme.all (enqueue (List.replicate width ' ') entries value)).getLast? = some (.mark ')') := by
  have final (lines : List (List Char)) (first second last : List Char) :
      (lines ++ [first, second, last]).getLast? = some last := by
    rw [List.getLast?_append]
    rfl
  have closedLines := forall_enqueue_line width (fun _ => Lexeme.not_stray_of_plain)
    (fun entry isEntry lexeme member => Lexeme.not_stray_of_plain (plainEntries entry isEntry lexeme member)) closed
  rw [enqueue_eq, Lexeme.getLast_joinLines closedLines (final _ _ _ _) (by simp [closing]), Lexeme.all_spaces,
    List.getLast?_append]
  rfl

theorem outputEntries_plain (line : Nat) (negate : Bool) :
    ∀ entry ∈ [":type :output".toList, ":line ".toList ++ Decimal.natDigits line,
        ":negate ".toList ++ (if negate then "true".toList else "false".toList)],
      ∀ lexeme ∈ Lexeme.all entry, lexeme.isPlain = true := by
  intro entry member
  simp only [List.mem_cons, List.not_mem_nil, or_false] at member
  rcases member with rfl | rfl | rfl
  · decide
  · have symbols : ∀ c ∈ Decimal.natDigits line, Lexeme.isSymbolChar c = true := fun c member => by
      simp [Lexeme.isSymbolChar, natDigits_isDigit member]
    have digits : Lexeme.all (Decimal.natDigits line) = [.word (Decimal.natDigits line)] := by
      have opens : (Lexeme.word (Decimal.natDigits line)).Opens [] :=
        Lexeme.opens_word.mpr ⟨Nat.toDigits_ne_nil, symbols, by simp⟩
      simpa [Lexeme.text] using Lexeme.all_of_opens _ opens
    have ends : ∀ lexeme ∈ (Lexeme.all ":line ".toList).getLast?, lexeme.EndsBefore (Decimal.natDigits line) := by
      intro lexeme member
      cases member
      trivial
    rw [Lexeme.all_append (by decide) ends, digits]
    exact List.forall_mem_append.mpr ⟨by decide, List.forall_mem_singleton.mpr (List.all_eq_true.mpr symbols)⟩
  · cases negate <;> decide

/-- The code for an example that is no declaration ends with a bracket. -/
theorem code_last {e : Example} (readable : Readable e) (noDeclaration : isDeclaration e.input.value = false) :
    (Lexeme.all (code 0 e)).getLast? = some (.mark ')') := by
  obtain ⟨⟨body, read⟩, readOutput⟩ := readable
  have closedInput := Form.closed_of_read read
  have lastInput : (Lexeme.all (inputCode (List.replicate 0 ' ') e.input)).getLast? = some (.mark ')') :=
    enqueue_last 0 (by decide) closedInput
  unfold code
  dsimp only
  rw [if_neg (Bool.eq_false_iff.mp noDeclaration)]
  cases output : e.output with
  | none => exact lastInput
  | some fragment =>
      obtain ⟨result, read'⟩ := readOutput fragment output
      have lastOutput : (Lexeme.all (outputCode (List.replicate 0 ' ') fragment e.negate)).getLast? =
          some (.mark ')') := enqueue_last 0 (outputEntries_plain _ _) (Form.closed_of_read read')
      dsimp only
      rw [Lexeme.getLast_append_break (Form.closed_of_read (inputCode_reads 0 read)) ?_, lastOutput]
      intro empty
      rw [empty] at lastOutput
      cases lastOutput

/-- The code for an example has brackets, blanks, words and the lexemes of its texts. -/
theorem forall_code {holds : Lexeme → Prop} (width : Nat) {e : Example} (readable : Readable e)
    (plain : ∀ lexeme, lexeme.isPlain = true → holds lexeme) (input : ∀ lexeme ∈ Lexeme.all e.input.value, holds lexeme)
    (results : ∀ output ∈ e.output, ∀ lexeme ∈ Lexeme.all output.value, holds lexeme) :
    ∀ lexeme ∈ Lexeme.all (code width e), holds lexeme := by
  obtain ⟨⟨body, read⟩, readOutput⟩ := readable
  have inInput : ∀ lexeme ∈ Lexeme.all (inputCode (List.replicate width ' ') e.input), holds lexeme :=
    forall_enqueue width plain (by decide) (Form.closed_of_read read) input
  unfold code
  dsimp only
  split
  · exact Lexeme.forall_indent width (plain _ rfl) input
  · cases output : e.output with
    | none => exact inInput
    | some fragment =>
        obtain ⟨result, read'⟩ := readOutput fragment output
        have inOutput : ∀ lexeme ∈ Lexeme.all (outputCode (List.replicate width ' ') fragment e.negate), holds lexeme :=
          forall_enqueue width plain (outputEntries_plain _ _) (Form.closed_of_read read') (results fragment output)
        dsimp only
        rw [Lexeme.all_append_break (Form.closed_of_read (inputCode_reads width read))]
        exact List.forall_mem_append.mpr ⟨inInput, List.forall_mem_cons.mpr ⟨plain _ rfl, inOutput⟩⟩

/-- The texts of an example hold no comments. -/
def Uncommented (e : Example) : Prop :=
  (∀ lexeme ∈ Lexeme.all e.input.value, lexeme.isComment = false) ∧
    ∀ output ∈ e.output, ∀ lexeme ∈ Lexeme.all output.value, lexeme.isComment = false

instance (e : Example) : Decidable (Uncommented e) :=
  inferInstanceAs (Decidable ((∀ lexeme ∈ Lexeme.all e.input.value, _) ∧ ∀ output ∈ e.output, _))

theorem code_uncommented (width : Nat) {e : Example} (readable : Readable e) (uncommented : Uncommented e) :
    ∀ lexeme ∈ Lexeme.all (code width e), lexeme.isComment = false :=
  forall_code width readable (fun _ => Lexeme.not_comment_of_plain) uncommented.1 uncommented.2

end Harness

end Exemplar
