import Exemplar.Harness
import Exemplar.Proofs.Outline
import Mathlib.Data.List.TakeWhile

/-!
# The code for examples as forms

The code for an example reads as calls that put the forms of its input and of its expected result into the queue, or
as the forms of its input alone when these are a declaration.
-/

namespace Exemplar

open Reader

theorem Reader.Outline.steps_indent (outline : Outline) (width : Nat) (text : List Char) :
    outline.steps (Lexeme.all (List.replicate width ' ' ++ text)) = outline.steps (Lexeme.all text) := by
  rw [Lexeme.all_spaces]
  induction width with
  | zero => rfl
  | succ width ih => exact ih

theorem Reader.Outline.steps_onto {lexemes : List Lexeme} {forms : List Form}
    (read : initial.steps lexemes = some ⟨[], forms⟩) (done : List Form) :
    steps ⟨[], done⟩ lexemes = some ⟨[], forms ++ done⟩ := by
  obtain ⟨added, frame⟩ := steps_frame read
  obtain rfl : forms = added := by simpa [initial, frame []] using read.symm
  exact frame done

namespace Form

/-- The forms of a text, none when it is no program. -/
def ofText (text : List Char) : List Form := (Form.read (String.ofList text)).toOption.getD []

theorem ofText_of_read {text : List Char} {forms : List Form} (read : Form.read (String.ofList text) = .ok forms) :
    ofText text = forms := by
  rw [ofText, read]
  rfl

variable {text : List Char} {forms : List Form}

theorem closed_of_read (read : Form.read (String.ofList text) = .ok forms) :
    ∀ lexeme ∈ Lexeme.all text, lexeme.isStray = false :=
  Outline.steps_not_stray (read_ok_iff.mp read).1

/-- Outside of everything a text adds its forms. -/
theorem steps_of_read (read : Form.read (String.ofList text) = .ok forms) (done : List Form) :
    Outline.steps ⟨[], done⟩ (Lexeme.all text) = some ⟨[], forms.reverse ++ done⟩ :=
  Outline.steps_onto (read_ok_iff.mp read).1 done

/-- Inside a group a text adds its forms to the group. -/
theorem steps_of_read_inside (read : Form.read (String.ofList text) = .ok forms) (bracket : Bracket)
    (items : List Form) (outer : List (Opener × List Form)) (above : List Form) :
    Outline.steps ⟨(.bracket bracket, items) :: outer, above⟩ (Lexeme.all text) =
      some ⟨(.bracket bracket, forms.reverse ++ items) :: outer, above⟩ :=
  Outline.initial.steps_within (read_ok_iff.mp read).1

theorem read_append_break {second : List Char} {others : List Form}
    (read : Form.read (String.ofList text) = .ok forms) (read' : Form.read (String.ofList second) = .ok others) :
    Form.read (String.ofList (text ++ '\n' :: second)) = .ok (forms ++ others) := by
  refine read_ok_iff.mpr ⟨?_, ?_⟩
  · rw [Lexeme.all_append_break (closed_of_read read), Outline.steps_append, (read_ok_iff.mp read).1,
      List.reverse_append]
    exact steps_of_read read' forms.reverse
  · rw [areEven_append, (read_ok_iff.mp read).2, (read_ok_iff.mp read').2, Bool.and_self]

theorem read_indent (width : Nat) (read : Form.read (String.ofList text) = .ok forms) :
    Form.read (String.ofList (List.replicate width ' ' ++ text)) = .ok forms := by
  have parts := read_ok_iff.mp read
  refine read_ok_iff.mpr ⟨?_, parts.2⟩
  rw [Outline.steps_indent]
  exact parts.1

/-- A text that begins like a word reads as an atom first. -/
theorem first_atom_of_symbol {c : Char} {rest : List Char} (symbol : Lexeme.isSymbolChar c = true)
    (read : Form.read (String.ofList (c :: rest)) = .ok forms) : ∃ a others, forms = .atom a :: others := by
  have whole := (read_ok_iff.mp read).1
  obtain ⟨after, same⟩ := Lexeme.first_text c rest
  have isWord : Lexeme.first c rest = .word (c :: rest.takeWhile Lexeme.isSymbolChar) :=
    Lexeme.first_word.mpr ⟨symbol, rfl⟩
  have opens := Lexeme.opens_first same
  rw [isWord] at same opens
  rw [same, Lexeme.all_of_opens _ opens] at whole
  obtain ⟨middle, first, later⟩ := Option.bind_eq_some_iff.mp whole
  obtain ⟨a, _, rfl⟩ := Option.map_eq_some_iff.mp first
  obtain ⟨added, frame⟩ := Outline.steps_frame later
  have reversed : forms.reverse = added ++ [.atom a] := by
    simpa [Outline.push, Outline.place, Outline.initial, frame [.atom a]] using later.symm
  exact ⟨a, added.reverse, by rw [← List.reverse_reverse forms, reversed, List.reverse_append]; rfl⟩

end Form

namespace Reader.Outline

theorem steps_line {outline next : Outline} {line : List Char} (read : outline.steps (Lexeme.all line) = some next)
    (second : List Char) (more : List (List Char)) :
    outline.steps (Lexeme.all (Text.joinLines (line :: second :: more))) =
      next.steps (Lexeme.all (Text.joinLines (second :: more))) := by
  rw [Text.joinLines_cons_cons, Lexeme.all_append_break (steps_not_stray read), steps_append, read]
  rfl

end Reader.Outline

namespace Harness

/-- The call that puts a map with the given entries and a function with the given body into the queue. -/
def enqueueForm (entries body : List Form) : Form :=
  .group .round [.atom (.symbol "enqueue!"), .atom (.symbol queueName),
    .group .curly (entries ++
      [.atom (.keyword "thunk"), .group .round (.atom (.symbol "fn") :: .group .round [] :: body)])]

def inputForm (body : List Form) : Form :=
  enqueueForm [.atom (.keyword "type"), .atom (.keyword "input")] body

/-- The call for an expected result on the given line. -/
def outputForm (line : Nat) (negate : Bool) (body : List Form) : Form :=
  enqueueForm
    [.atom (.keyword "type"), .atom (.keyword "output"),
      .atom (.keyword "line"), .atom (.number (Decimal.read false (Decimal.natDigits line) [])),
      .atom (.keyword "negate"), .atom (.bool negate)]
    body

/-- The forms that stand for an example: those of a declaration, or the calls for its input and its expected result. -/
def forms (e : Example) : List Form :=
  if isDeclaration e.input.value then Form.ofText e.input.value
  else
    inputForm (Form.ofText e.input.value) ::
      e.output.toList.map fun output => outputForm output.span.start.line e.negate (Form.ofText output.value)

/-- The texts of an example are programs. -/
def Readable (e : Example) : Prop :=
  (∃ forms, Form.read (String.ofList e.input.value) = .ok forms) ∧
    ∀ output ∈ e.output, ∃ forms, Form.read (String.ofList output.value) = .ok forms

theorem readable_iff {text : List Char} :
    (Form.read (String.ofList text)).isOk = true ↔ ∃ forms, Form.read (String.ofList text) = .ok forms := by
  cases Form.read (String.ofList text) <;> simp [Except.isOk, Except.toBool]

instance (e : Example) : Decidable (Readable e) :=
  decidable_of_iff ((Form.read (String.ofList e.input.value)).isOk = true ∧
      ∀ output ∈ e.output, (Form.read (String.ofList output.value)).isOk = true)
    (by simp only [Readable, readable_iff])

variable {entries : List (List Char)} {outer : List (Opener × List Form)} {above : List Form}

theorem steps_entries (width : Nat) (readable : ∀ entry ∈ entries, ∃ forms, Form.read (String.ofList entry) = .ok forms)
    (items : List Form) (line : List Char) (more : List (List Char)) :
    Outline.steps ⟨(.bracket .curly, items) :: outer, above⟩
        (Lexeme.all (Text.joinLines
          (entries.map (fun entry => List.replicate width ' ' ++ "  ".toList ++ entry) ++ line :: more))) =
      Outline.steps ⟨(.bracket .curly, (entries.flatMap Form.ofText).reverse ++ items) :: outer, above⟩
        (Lexeme.all (Text.joinLines (line :: more))) := by
  induction entries generalizing items with
  | nil => rfl
  | cons entry rest ih =>
      obtain ⟨forms, read⟩ := readable entry (by simp)
      have inside : Outline.steps ⟨(.bracket .curly, items) :: outer, above⟩
          (Lexeme.all (List.replicate width ' ' ++ "  ".toList ++ entry)) =
          some ⟨(.bracket .curly, forms.reverse ++ items) :: outer, above⟩ := by
        have two : "  ".toList = List.replicate 2 ' ' := rfl
        rw [List.append_assoc, two, Outline.steps_indent, Outline.steps_indent]
        exact Form.steps_of_read_inside read .curly items outer above
      obtain ⟨second, others, tail⟩ : ∃ second others,
          rest.map (fun entry => List.replicate width ' ' ++ "  ".toList ++ entry) ++ line :: more =
            second :: others := List.exists_cons_of_ne_nil (by simp)
      have later := ih (fun other member => readable other (by simp [member])) (forms.reverse ++ items)
      rw [tail] at later
      rw [List.map_cons, List.cons_append, tail, Outline.steps_line inside, later, List.flatMap_cons,
        Form.ofText_of_read read, List.reverse_append, List.append_assoc]

/-- The line that opens a function reads the same wherever it stands. -/
theorem steps_thunk (width : Nat) (outline : Outline) :
    outline.steps (Lexeme.all (List.replicate width ' ' ++ "  :thunk (fn ()".toList)) =
      some ⟨(.bracket .round, [.group .round [], .atom (.symbol "fn")]) ::
        (outline.push (.atom (.keyword "thunk"))).stack, (outline.push (.atom (.keyword "thunk"))).done⟩ := by
  rw [Outline.steps_indent]
  rfl

/-- The code that puts a map into the queue reads as the call that does. -/
theorem enqueue_steps (width : Nat) (entries : List (List Char)) {value : List Char} {body : List Form}
    (readable : ∀ entry ∈ entries, ∃ forms, Form.read (String.ofList entry) = .ok forms)
    (read : Outline.initial.steps (Lexeme.all value) = some ⟨[], body.reverse⟩) :
    Outline.initial.steps (Lexeme.all (enqueue (List.replicate width ' ') entries value)) =
      some ⟨[], [enqueueForm (entries.flatMap Form.ofText) body]⟩ := by
  have four : "    ".toList = List.replicate 4 ' ' := rfl
  have opening : Outline.initial.steps (Lexeme.all (List.replicate width ' ' ++ opening)) =
      some ⟨[(.bracket .curly, []), (.bracket .round, [.atom (.symbol "__doctest"), .atom (.symbol "enqueue!")])],
        []⟩ := by
    rw [Outline.steps_indent]
    rfl
  have inside (items : List Form) (outer : List (Opener × List Form)) (above : List Form) :
      Outline.steps ⟨(.bracket .round, items) :: outer, above⟩
        (Lexeme.all (List.replicate width ' ' ++ "    ".toList ++ value)) =
      some ⟨(.bracket .round, body.reverse ++ items) :: outer, above⟩ := by
    rw [List.append_assoc, four, Outline.steps_indent, Outline.steps_indent]
    exact Outline.initial.steps_within read
  obtain ⟨second, others, tail⟩ : ∃ second others,
      entries.map (fun entry => List.replicate width ' ' ++ "  ".toList ++ entry) ++
        [List.replicate width ' ' ++ "  :thunk (fn ()".toList, List.replicate width ' ' ++ "    ".toList ++ value,
          List.replicate width ' ' ++ closing] = second :: others :=
    List.exists_cons_of_ne_nil (by simp)
  rw [enqueue, List.append_assoc, List.singleton_append, tail, Outline.steps_line opening, ← tail,
    steps_entries width readable, Outline.steps_line (steps_thunk width _), Outline.steps_line (inside _ _ _)]
  change Outline.steps _ (Lexeme.all (List.replicate width ' ' ++ closing)) = _
  rw [Outline.steps_indent]
  change some (Outline.mk [] [_]) = _
  simp [enqueueForm, queueName]

theorem enqueue_reads (width : Nat) (entries : List (List Char)) {value : List Char} {body : List Form}
    (readable : ∀ entry ∈ entries, ∃ forms, Form.read (String.ofList entry) = .ok forms)
    (even : Form.areEven (entries.flatMap Form.ofText) = true)
    (pairs : (entries.flatMap Form.ofText).length % 2 = 0)
    (read : Form.read (String.ofList value) = .ok body) :
    Form.read (String.ofList (enqueue (List.replicate width ' ') entries value)) =
      .ok [enqueueForm (entries.flatMap Form.ofText) body] := by
  obtain ⟨steps, bodyEven⟩ := Form.read_ok_iff.mp read
  refine Form.read_ok_iff.mpr ⟨enqueue_steps width entries readable steps, ?_⟩
  generalize entries.flatMap Form.ofText = given at even pairs ⊢
  simp [Form.areEven, Form.isEven, enqueueForm, Form.areEven_append, even, bodyEven, pairs]

theorem read_keyword_atom {front word : List Char} {name : String} {a : Atom}
    (keyword : Outline.initial.steps (Lexeme.all front) = some ⟨[], [.atom (.keyword name)]⟩)
    (isWord : (Lexeme.word word).Opens []) (spelled : Atom.ofWord? word = some a)
    (ends : ∀ lexeme ∈ (Lexeme.all front).getLast?, lexeme.EndsBefore word) :
    Form.read (String.ofList (front ++ word)) = .ok [.atom (.keyword name), .atom a] := by
  have single : Lexeme.all word = [.word word] := by
    have all := Lexeme.all_of_opens _ isWord
    rwa [Lexeme.text, List.append_nil] at all
  refine Form.read_ok_iff.mpr ⟨?_, rfl⟩
  rw [Lexeme.all_append (Outline.steps_not_stray keyword) ends, Outline.steps_append, keyword, single]
  simp [Outline.steps, Outline.step, spelled, Outline.push, Outline.place]

theorem read_type (name : String) (kind : List Char)
    (isKind : kind = ":type :input".toList ∧ name = "input" ∨ kind = ":type :output".toList ∧ name = "output") :
    Form.read (String.ofList kind) = .ok [.atom (.keyword "type"), .atom (.keyword name)] := by
  rcases isKind with ⟨rfl, rfl⟩ | ⟨rfl, rfl⟩ <;> exact Form.read_ok_iff.mpr ⟨rfl, rfl⟩

theorem natDigits_isDigit {n : Nat} {c : Char} (member : c ∈ Decimal.natDigits n) : c.isDigit = true :=
  Nat.isDigit_of_mem_toDigits (by decide) (by decide) member

theorem ofWord_natDigits (n : Nat) :
    Atom.ofWord? (Decimal.natDigits n) = some (.number (Decimal.read false (Decimal.natDigits n) [])) := by
  have digits : ∀ c ∈ Decimal.natDigits n, c.isDigit = true := fun _ => natDigits_isDigit
  have nonempty : Decimal.natDigits n ≠ [] := Nat.toDigits_ne_nil
  have parts : Atom.number? (Decimal.natDigits n) = some (Decimal.read false (Decimal.natDigits n) []) := by
    generalize Decimal.natDigits n = word at digits nonempty
    have whole : word.takeWhile (·.isDigit) = word := List.takeWhile_eq_self_iff.mpr digits
    have rest : word.dropWhile (·.isDigit) = [] := List.dropWhile_eq_nil_iff.mpr digits
    unfold Atom.number?
    split
    next negative magnitude same =>
      split at same
      · have minus := digits '-' List.mem_cons_self
        exact absurd minus (by decide)
      · obtain ⟨rfl, rfl⟩ := Prod.mk.inj same
        simp only [whole, rest, nonempty, if_false]
  unfold Atom.ofWord?
  rw [parts]

theorem read_line (n : Nat) :
    Form.read (String.ofList (":line ".toList ++ Decimal.natDigits n)) =
      .ok [.atom (.keyword "line"), .atom (.number (Decimal.read false (Decimal.natDigits n) []))] := by
  refine read_keyword_atom rfl (Lexeme.opens_word.mpr ⟨Nat.toDigits_ne_nil, ?_, by simp⟩) (ofWord_natDigits n) ?_
  · intro c member
    simp [Lexeme.isSymbolChar, natDigits_isDigit member]
  · intro lexeme member
    cases member
    trivial

theorem read_negate (negate : Bool) :
    Form.read (String.ofList (":negate ".toList ++ (if negate then "true".toList else "false".toList))) =
      .ok [.atom (.keyword "negate"), .atom (.bool negate)] := by
  cases negate <;> exact Form.read_ok_iff.mpr ⟨rfl, rfl⟩

theorem inputCode_reads (width : Nat) {input : Fragment} {body : List Form}
    (read : Form.read (String.ofList input.value) = .ok body) :
    Form.read (String.ofList (inputCode (List.replicate width ' ') input)) = .ok [inputForm body] := by
  have kind := read_type "input" ":type :input".toList (.inl ⟨rfl, rfl⟩)
  have entries : [":type :input".toList].flatMap Form.ofText =
      [.atom (.keyword "type"), .atom (.keyword "input")] := by
    rw [List.flatMap_singleton, Form.ofText_of_read kind]
  have whole := enqueue_reads width [":type :input".toList] (by simpa using ⟨_, kind⟩)
    (by rw [entries]; rfl) (by rw [entries]; rfl) read
  rw [entries] at whole
  exact whole

theorem outputEntries_read (line : Nat) (negate : Bool) :
    ∀ entry ∈ [":type :output".toList, ":line ".toList ++ Decimal.natDigits line,
        ":negate ".toList ++ (if negate then "true".toList else "false".toList)],
      ∃ forms, Form.read (String.ofList entry) = .ok forms := by
  intro entry member
  simp only [List.mem_cons, List.not_mem_nil, or_false] at member
  rcases member with rfl | rfl | rfl
  · exact ⟨_, read_type "output" ":type :output".toList (.inr ⟨rfl, rfl⟩)⟩
  · exact ⟨_, read_line line⟩
  · exact ⟨_, read_negate negate⟩

theorem outputCode_reads (width : Nat) {output : Fragment} (negate : Bool) {body : List Form}
    (read : Form.read (String.ofList output.value) = .ok body) :
    Form.read (String.ofList (outputCode (List.replicate width ' ') output negate)) =
      .ok [outputForm output.span.start.line negate body] := by
  have entries : [":type :output".toList, ":line ".toList ++ Decimal.natDigits output.span.start.line,
      ":negate ".toList ++ (if negate then "true".toList else "false".toList)].flatMap Form.ofText =
      [.atom (.keyword "type"), .atom (.keyword "output"), .atom (.keyword "line"),
        .atom (.number (Decimal.read false (Decimal.natDigits output.span.start.line) [])),
        .atom (.keyword "negate"), .atom (.bool negate)] := by
    rw [List.flatMap_cons, List.flatMap_cons, List.flatMap_singleton,
      Form.ofText_of_read (read_type "output" ":type :output".toList (.inr ⟨rfl, rfl⟩)),
      Form.ofText_of_read (read_line output.span.start.line), Form.ofText_of_read (read_negate negate)]
    rfl
  have whole := enqueue_reads width [":type :output".toList,
      ":line ".toList ++ Decimal.natDigits output.span.start.line,
      ":negate ".toList ++ (if negate then "true".toList else "false".toList)]
    (outputEntries_read output.span.start.line negate) (by rw [entries]; rfl) (by rw [entries]; simp) read
  rw [entries] at whole
  exact whole

/-- The code for an example reads as its forms. -/
theorem code_reads (width : Nat) {e : Example} (readable : Readable e) :
    Form.read (String.ofList (code width e)) = .ok (forms e) := by
  obtain ⟨⟨body, read⟩, readOutput⟩ := readable
  unfold code forms
  dsimp only
  rw [Form.ofText_of_read read]
  split
  · exact Form.read_indent width read
  · cases output : e.output with
    | none => exact inputCode_reads width read
    | some fragment =>
        obtain ⟨result, read'⟩ := readOutput fragment output
        have both := Form.read_append_break (inputCode_reads width read) (outputCode_reads width e.negate read')
        rw [Option.toList_some, List.map_singleton, Form.ofText_of_read read']
        exact both

theorem code_head (e : Example) : ∃ c rest, code 0 e = c :: rest ∧ Lexeme.isSymbolChar c = false := by
  unfold code
  dsimp only
  split
  · next declared =>
      unfold isDeclaration at declared
      split at declared
      · next first others read =>
          cases value : e.input.value with
          | nil => rw [value] at read; cases read
          | cons c rest =>
              refine ⟨c, rest, rfl, ?_⟩
              cases symbol : Lexeme.isSymbolChar c with
              | false => rfl
              | true =>
                  rw [value] at read
                  obtain ⟨a, _, same⟩ := Form.first_atom_of_symbol symbol read
                  rw [(List.cons.inj same).1] at declared
                  cases declared
      · cases declared
  · cases e.output with
    | none => exact ⟨'(', _, rfl, by decide⟩
    | some output => exact ⟨'(', _, rfl, by decide⟩

end Harness

end Exemplar
