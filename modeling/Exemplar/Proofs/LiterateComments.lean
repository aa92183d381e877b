import Exemplar.Proofs.LiterateText
import Exemplar.Proofs.Stretches

/-!
# The comments of literate text

Literate text is a row of parts: characters of code, string literals, and comments, which open with `#` outside of the
other two. Compiling changes the marks of the comments and no other character, and fails only at a string that nothing
closes. When the code holds no semicolon, the comments of the compiled text are the comments of the row.
-/

namespace Exemplar

namespace Literate

/-- A part of literate text: a character of code, or what a string literal or a comment holds. -/
inductive Part where
  | code (c : Char)
  | string (body : List Char)
  | comment (body : List Char)
  deriving DecidableEq, Repr

namespace Part

def source : Part → List Char
  | code c => [c]
  | string body => '"' :: (body ++ ['"'])
  | comment body => '#' :: body

/-- The characters of a part in plain text. -/
def plain : Part → List Char
  | comment body => ';' :: body
  | part => part.source

def sources (parts : List Part) : List Char := parts.flatMap source

def plains (parts : List Part) : List Char := parts.flatMap plain

/-- A part can stand before the text `after`: code is neither mark, a string ends at the first quote mark that no
backslash escapes, and a comment at the end of its line. -/
def Stands (after : List Char) : Part → Prop
  | code c => c ≠ '"' ∧ c ≠ '#'
  | string body => Text.closeQuote (body ++ '"' :: after) = some (body, after)
  | comment body => (∀ c ∈ body, Lexeme.isLineBreak c = false) ∧ ∀ c ∈ after.head?, Lexeme.isLineBreak c = true

/-- Every part of a row can stand where it does, when `after` follows the row. -/
def Row (after : List Char) : List Part → Prop
  | [] => True
  | part :: rest => part.Stands (sources rest ++ after) ∧ Row after rest

/-- The parts are a row with the given text. -/
structure Cuts (text : List Char) (parts : List Part) : Prop where
  whole : sources parts = text
  row : Row [] parts

/-- A comment of the row begins behind `i` characters. -/
def Begins (parts : List Part) (i : Nat) : Prop :=
  ∃ left body right, parts = left ++ comment body :: right ∧ i = (sources left).length

/-- The comments of a row that starts at `p`, with their places in the literate text. -/
def comments (p : Position) : List Part → List Comment
  | [] => []
  | comment body :: rest =>
      ⟨false, body, ⟨p, p.advance ('#' :: body)⟩⟩ :: comments (p.advance ('#' :: body)) rest
  | part :: rest => comments (p.advance part.source) rest

@[simp] theorem sources_nil : sources [] = [] := rfl

@[simp] theorem sources_cons (part : Part) (rest : List Part) :
    sources (part :: rest) = part.source ++ sources rest := rfl

@[simp] theorem sources_append (left right : List Part) : sources (left ++ right) = sources left ++ sources right := by
  simp [sources]

@[simp] theorem plains_nil : plains [] = [] := rfl

@[simp] theorem plains_cons (part : Part) (rest : List Part) : plains (part :: rest) = part.plain ++ plains rest := rfl

@[simp] theorem plains_append (left right : List Part) : plains (left ++ right) = plains left ++ plains right := by
  simp [plains]

@[simp] theorem length_plain (part : Part) : part.plain.length = part.source.length := by
  cases part <;> rfl

@[simp] theorem length_plains (parts : List Part) : (plains parts).length = (sources parts).length := by
  induction parts with
  | nil => rfl
  | cons part rest ih => simp [ih]

theorem source_ne_nil (part : Part) : part.source ≠ [] := by
  cases part <;> simp [source]

/-! ## Rows of parts -/

/-- A text begins with a part, unless it begins with the quote mark of a string that nothing closes. -/
theorem exists_part (c : Char) (rest : List Char) :
    (∃ (part : Part) (after : List Char), c :: rest = part.source ++ after ∧ part.Stands after) ∨
      c = '"' ∧ Text.closeQuote rest = none := by
  by_cases quote : c = '"'
  · subst quote
    cases closed : Text.closeQuote rest with
    | none => exact .inr ⟨rfl, rfl⟩
    | some cut =>
        obtain ⟨body, after⟩ := cut
        have split := Text.closeQuote_text closed
        refine .inl ⟨string body, after, by simp [source, split], ?_⟩
        rwa [split] at closed
  · left
    by_cases hash : c = '#'
    · subst hash
      have cut := List.takeWhile_append_dropWhile (p := (!Lexeme.isLineBreak ·)) (l := rest)
      have ends := (Lexeme.takeWhile_append_iff (!Lexeme.isLineBreak ·) (rest.takeWhile (!Lexeme.isLineBreak ·))
        (rest.dropWhile (!Lexeme.isLineBreak ·))).mp (by rw [cut])
      simp only [Bool.not_eq_true', Bool.not_eq_false'] at ends
      exact ⟨comment _, _, by rw [source, List.cons_append, cut], ends⟩
    · exact ⟨code c, rest, rfl, quote, hash⟩

/-- Every text is a row of parts up to its end, or up to a string that nothing closes. -/
theorem exists_row (text : List Char) :
    ∃ parts rest, text = sources parts ++ rest ∧ Row rest parts ∧
      (rest = [] ∨ ∃ tail, rest = '"' :: tail ∧ Text.closeQuote tail = none) := by
  induction size : text.length using Nat.strongRecOn generalizing text with
  | ind bound ih =>
      cases text with
      | nil => exact ⟨[], [], rfl, trivial, .inl rfl⟩
      | cons c tail =>
          rcases exists_part c tail with ⟨part, after, split, stands⟩ | ⟨rfl, unclosed⟩
          · have shorter : after.length < bound := by
              have positive := List.length_pos_iff.mpr part.source_ne_nil
              rw [split, List.length_append] at size
              omega
            obtain ⟨parts, rest, rfl, row, ended⟩ := ih after.length shorter after rfl
            exact ⟨part :: parts, rest, by simp [split], ⟨stands, row⟩, ended⟩
          · exact ⟨[], _, rfl, trivial, .inr ⟨tail, rfl, unclosed⟩⟩

/-! ## Compiling -/

theorem compileFrom_part {part : Part} {after : List Char} (stands : part.Stands after) (offset : Nat) :
    compileFrom .code offset (part.source ++ after) =
      (compileFrom .code (offset + Text.byteLength part.source) after).map (part.plain ++ ·) := by
  rw [compileFrom_append]
  cases part with
  | code c =>
      have single : ∀ d ∈ [c], d ≠ '"' ∧ d ≠ '#' := List.forall_mem_singleton.mpr stands
      rw [source, through_code single]
      rfl
  | string body =>
      have passed : Mode.code.through offset (source (string body)) = (source (string body), .code) := by
        simp [source, Mode.through, Mode.next, Mode.plain, through_string stands]
      rw [passed]
      rfl
  | comment body =>
      have passed : Mode.code.through offset (source (comment body)) = (plain (comment body), .comment) := by
        simp [source, plain, Mode.through, Mode.next, Mode.plain, through_comment stands.1]
      rw [passed, compileFrom_comment stands.2]

theorem compileFrom_row {parts : List Part} {after : List Char} (row : Row after parts) (offset : Nat) :
    compileFrom .code offset (sources parts ++ after) =
      (compileFrom .code (offset + Text.byteLength (sources parts)) after).map (plains parts ++ ·) := by
  induction parts generalizing offset with
  | nil =>
      simp only [sources_nil, plains_nil, List.nil_append, Text.byteLength, Nat.add_zero]
      cases compileFrom .code offset after <;> rfl
  | cons part rest ih =>
      rw [sources_cons, List.append_assoc, compileFrom_part row.1, ih row.2, Text.byteLength_append, Nat.add_assoc]
      cases compileFrom .code (offset + (Text.byteLength part.source + Text.byteLength (sources rest))) after with
      | error fault => rfl
      | ok compiled => simp [Except.map]

theorem Cuts.compile {text : List Char} {parts : List Part} (cuts : Cuts text parts) :
    Literate.compile text = .ok (plains parts) := by
  have compiled := compileFrom_row cuts.row 0
  rw [List.append_nil, cuts.whole] at compiled
  rw [Literate.compile, compiled]
  simp [compileFrom, Except.map]

theorem compile_openString {parts : List Part} {rest : List Char} (row : Row ('"' :: rest) parts)
    (unclosed : Text.closeQuote rest = none) :
    Literate.compile (sources parts ++ '"' :: rest) = .error (.openString (Text.byteLength (sources parts))) := by
  rw [Literate.compile, compileFrom_row row, compileFrom_cons]
  simp [Mode.next, compileFrom_openString unclosed, Except.map]

/-! ## Where the two texts differ -/

theorem begins_cons {part : Part} {rest : List Part} {i : Nat} :
    Begins (part :: rest) i ↔
      (i = 0 ∧ ∃ body, part = comment body) ∨ ∃ j, i = part.source.length + j ∧ Begins rest j := by
  constructor
  · rintro ⟨left, body, right, same, rfl⟩
    cases left with
    | nil =>
        cases same
        exact .inl ⟨rfl, body, rfl⟩
    | cons head left =>
        cases same
        exact .inr ⟨_, by simp, left, body, right, rfl, rfl⟩
  · rintro (⟨rfl, body, rfl⟩ | ⟨_, rfl, left, body, right, rfl, rfl⟩)
    · exact ⟨[], body, rest, rfl, rfl⟩
    · exact ⟨part :: left, body, right, rfl, by simp⟩

theorem plain_ne_source {part : Part} {i : Nat} :
    part.plain[i]? ≠ part.source[i]? ↔ i = 0 ∧ ∃ body, part = comment body := by
  cases part with
  | code c => simp [plain]
  | string body => simp [plain]
  | comment body => cases i <;> simp [plain, source]

theorem plains_ne_sources (parts : List Part) (i : Nat) :
    (plains parts)[i]? ≠ (sources parts)[i]? ↔ Begins parts i := by
  induction parts generalizing i with
  | nil => simp [Begins]
  | cons part rest ih =>
      rw [plains_cons, sources_cons, begins_cons]
      by_cases inside : i < part.source.length
      · have notLater : ¬ ∃ j, i = part.source.length + j ∧ Begins rest j := by
          rintro ⟨j, rfl, _⟩
          omega
        rw [List.getElem?_append_left (by simpa using inside), List.getElem?_append_left inside, plain_ne_source]
        simp only [notLater, or_false]
      · obtain ⟨j, rfl⟩ := Nat.exists_eq_add_of_le (Nat.le_of_not_lt inside)
        rw [List.getElem?_append_right (by simp), List.getElem?_append_right (by simp), length_plain,
          Nat.add_sub_cancel_left, ih]
        simp [part.source_ne_nil]

theorem Begins.marks {parts : List Part} {i : Nat} (begins : Begins parts i) :
    (sources parts)[i]? = some '#' ∧ (plains parts)[i]? = some ';' := by
  obtain ⟨left, body, right, rfl, rfl⟩ := begins
  constructor
  · simp [source]
  · rw [← length_plains]
    simp [plain]

/-! ## The comments of the compiled text -/

/-- A character of code begins no comment, whether or not the word it is in goes on. -/
theorem ofLexemes_code {c : Char} (noQuote : c ≠ '"') (noHash : c ≠ '#') (noSemicolon : c ≠ ';') (p : Position)
    (after : List Char) :
    Comment.ofLexemes p (Lexeme.all (c :: after)) = Comment.ofLexemes (p.after c) (Lexeme.all after) := by
  by_cases symbol : Lexeme.isSymbolChar c = true
  · have cut := List.takeWhile_append_dropWhile (p := Lexeme.isSymbolChar) (l := after)
    obtain ⟨run, tail, rfl, inRun, behind⟩ : ∃ run tail, after = run ++ tail ∧
        (∀ d ∈ run, Lexeme.isSymbolChar d = true) ∧ ∀ d ∈ tail.head?, Lexeme.isSymbolChar d = false :=
      ⟨_, _, cut.symm, (Lexeme.takeWhile_append_iff Lexeme.isSymbolChar _ _).mp (by rw [cut])⟩
    have longer : (Lexeme.word (c :: run)).Opens tail :=
      Lexeme.opens_word.mpr ⟨List.cons_ne_nil _ _, List.forall_mem_cons.mpr ⟨symbol, inRun⟩, behind⟩
    have whole : Lexeme.all (c :: (run ++ tail)) = .word (c :: run) :: Lexeme.all tail :=
      Lexeme.all_of_opens _ longer
    rw [whole, Comment.ofLexemes_cons]
    cases run with
    | nil => rfl
    | cons d run =>
        have shorter : (Lexeme.word (d :: run)).Opens tail :=
          Lexeme.opens_word.mpr ⟨List.cons_ne_nil _ _, inRun, behind⟩
        have rest : Lexeme.all (d :: run ++ tail) = .word (d :: run) :: Lexeme.all tail :=
          Lexeme.all_of_opens _ shorter
        rw [rest, Comment.ofLexemes_cons]
        rfl
  · have opens : (Lexeme.mark c).Opens after :=
      ⟨c, after, rfl, by simp [Lexeme.first, noQuote, noHash, noSemicolon, symbol]⟩
    have whole : Lexeme.all (c :: after) = .mark c :: Lexeme.all after := Lexeme.all_of_opens _ opens
    rw [whole, Comment.ofLexemes_cons]
    rfl

/-- Where a literate comment ends, the line comment for it ends too: what follows is no other comment. -/
theorem lineBreak_of_sources {parts : List Part} (breaks : ∀ c ∈ (sources parts).head?, Lexeme.isLineBreak c = true) :
    ∀ c ∈ (plains parts).head?, Lexeme.isLineBreak c = true := by
  cases parts with
  | nil => exact breaks
  | cons part rest =>
      cases part with
      | comment body => exact absurd (breaks '#' rfl) (by decide)
      | _ => simpa [plain, source] using breaks

theorem ofLexemes_plains {parts : List Part} (row : Row [] parts) (bare : code ';' ∉ parts) (p : Position) :
    Comment.ofLexemes p (Lexeme.all (plains parts)) = comments p parts := by
  induction parts generalizing p with
  | nil => rfl
  | cons part rest ih =>
      obtain ⟨stands, later⟩ := row
      obtain ⟨other, bareRest⟩ := List.ne_and_not_mem_of_not_mem_cons bare
      rw [List.append_nil] at stands
      cases part with
      | code c =>
          have noSemicolon : c ≠ ';' := fun same => other (same ▸ rfl)
          exact (ofLexemes_code stands.1 stands.2 noSemicolon p _).trans (ih later bareRest _)
      | string body =>
          have opens : (Lexeme.string body).Opens (plains rest) :=
            ⟨'"', body ++ '"' :: plains rest, by simp [Lexeme.text],
              Lexeme.first_string.mpr ⟨rfl, _, Text.closeQuote_before stands _⟩⟩
          have whole : Lexeme.all (plains (string body :: rest)) = .string body :: Lexeme.all (plains rest) :=
            Lexeme.all_of_opens _ opens
          rw [whole, Comment.ofLexemes_cons]
          exact ih later bareRest _
      | comment body =>
          have opens : (Lexeme.line body).Opens (plains rest) :=
            Lexeme.opens_line.mpr ⟨stands.1, lineBreak_of_sources stands.2⟩
          have whole : Lexeme.all (plains (comment body :: rest)) = .line body :: Lexeme.all (plains rest) :=
            Lexeme.all_of_opens _ opens
          rw [whole, Comment.ofLexemes_cons]
          exact congrArg (_ :: ·) (ih later bareRest _)

end Part

/-- Compiling fails only at a string that nothing closes, and otherwise changes only the marks of the comments; the
line comments of the compiled text are then the comments of the literate text. -/
theorem compile_changes_marks (text : List Char) :
    (∀ fault, compile text = .error fault ↔
      ∃ parts rest, text = Part.sources parts ++ '"' :: rest ∧ Part.Row ('"' :: rest) parts ∧
        Text.closeQuote rest = none ∧ fault = .openString (Text.byteLength (Part.sources parts))) ∧
    ((∃ compiled, compile text = .ok compiled) ↔ ∃ parts, Part.Cuts text parts) ∧
    ∀ parts, Part.Cuts text parts →
      ∃ compiled, compile text = .ok compiled ∧ compiled.length = text.length ∧
        (∀ i, compiled[i]? ≠ text[i]? ↔ Part.Begins parts i) ∧
        (∀ i, Part.Begins parts i → text[i]? = some '#' ∧ compiled[i]? = some ';') ∧
        (.code ';' ∉ parts → Comment.scan compiled = Part.comments .start parts) := by
  obtain ⟨parts, rest, whole, row, ended⟩ := Part.exists_row text
  refine ⟨fun fault => ⟨fun failed => ?_, ?_⟩, ⟨?_, ?_⟩, ?_⟩
  · rcases ended with rfl | ⟨tail, rfl, unclosed⟩
    · have cuts : Part.Cuts text parts := ⟨by rw [whole, List.append_nil], row⟩
      rw [cuts.compile] at failed
      cases failed
    · rw [whole, Part.compile_openString row unclosed] at failed
      cases failed
      exact ⟨parts, tail, whole, row, unclosed, rfl⟩
  · rintro ⟨parts, rest, rfl, row, unclosed, rfl⟩
    exact Part.compile_openString row unclosed
  · rintro ⟨compiled, done⟩
    rcases ended with rfl | ⟨tail, rfl, unclosed⟩
    · exact ⟨parts, by rw [whole, List.append_nil], row⟩
    · rw [whole, Part.compile_openString row unclosed] at done
      cases done
  · rintro ⟨parts, cuts⟩
    exact ⟨_, cuts.compile⟩
  · intro parts cuts
    refine ⟨Part.plains parts, cuts.compile, ?_, ?_, ?_, fun bare => ?_⟩
    · rw [Part.length_plains, cuts.whole]
    · rw [← cuts.whole]
      exact Part.plains_ne_sources parts
    · rw [← cuts.whole]
      exact fun i begins => begins.marks
    · rw [Comment.scan_eq]
      exact Part.ofLexemes_plains cuts.row bare .start

theorem compile_changes_marks_mixed :
    Part.Cuts "\"#;\" # \"a\nb#|".toList
        [.string ['#', ';'], .code ' ', .comment [' ', '"', 'a'], .code '\n', .code 'b', .comment ['|']] ∧
      (∃ compiled, compile "\"#;\" # \"a\nb#|".toList = .ok compiled ∧
        Comment.scan compiled =
          [⟨false, [' ', '"', 'a'], ⟨⟨1, 5⟩, ⟨1, 9⟩⟩⟩, ⟨false, ['|'], ⟨⟨2, 1⟩, ⟨2, 3⟩⟩⟩]) ∧
      compile "\"#\" #\n\"#".toList = .error (.openString 6) := by
  have cuts : Part.Cuts "\"#;\" # \"a\nb#|".toList
      [.string ['#', ';'], .code ' ', .comment [' ', '"', 'a'], .code '\n', .code 'b', .comment ['|']] :=
    ⟨by decide, by simp [Part.Row, Part.Stands, Part.source, Text.closeQuote, Lexeme.isLineBreak]⟩
  obtain ⟨compiled, done, _, _, _, scanned⟩ := (compile_changes_marks _).2.2 _ cuts
  refine ⟨cuts, ⟨compiled, done, (scanned (by decide)).trans (by decide)⟩, ?_⟩
  refine ((compile_changes_marks _).1 _).mpr
    ⟨[.string ['#'], .code ' ', .comment [], .code '\n'], ['#'], by decide, ?_, by decide, by decide⟩
  simp [Part.Row, Part.Stands, Part.source, Text.closeQuote, Lexeme.isLineBreak]

end Literate

end Exemplar
