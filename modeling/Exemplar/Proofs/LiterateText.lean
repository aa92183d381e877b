import Exemplar.Literate
import Exemplar.Proofs.Lexing

/-!
# Literate text and the plain text for it

Literate text that compiles, and whose code holds no semicolon, is the lexemes of its plain text in a row, with the
line comments marked in their other way. Both texts can then be cut at the same lexemes.
-/

namespace Exemplar

namespace Literate

/-- The plain text for a text that starts at the byte `offset` in the given mode, and the mode behind it. -/
def Mode.through (mode : Mode) (offset : Nat) : List Char → List Char × Mode
  | [] => ([], mode)
  | c :: rest =>
      let later := (mode.next offset c).through (offset + c.utf8Size) rest
      (mode.plain c :: later.1, later.2)

def Mode.isString : Mode → Bool
  | .string _ _ => true
  | _ => false

/-- The semicolons of a text are in strings and comments. -/
def Mode.HidesSemicolons (mode : Mode) (offset : Nat) (text : List Char) : Prop :=
  ∀ i < text.length, text[i]? = some ';' → (mode.through offset (text.take i)).2 ≠ .code

instance (mode : Mode) (offset : Nat) (text : List Char) : Decidable (mode.HidesSemicolons offset text) :=
  inferInstanceAs (Decidable (∀ i < text.length, _))

variable {mode : Mode} {offset : Nat}

theorem compileFrom_cons (mode : Mode) (offset : Nat) (c : Char) (rest : List Char) :
    compileFrom mode offset (c :: rest) =
      (compileFrom (mode.next offset c) (offset + c.utf8Size) rest).map (mode.plain c :: ·) := by
  rw [compileFrom]
  cases compileFrom (mode.next offset c) (offset + c.utf8Size) rest <;> rfl

theorem through_append (mode : Mode) (offset : Nat) (front rest : List Char) :
    mode.through offset (front ++ rest) =
      ((mode.through offset front).1 ++
          ((mode.through offset front).2.through (offset + Text.byteLength front) rest).1,
        ((mode.through offset front).2.through (offset + Text.byteLength front) rest).2) := by
  induction front generalizing mode offset with
  | nil => simp [Mode.through, Text.byteLength]
  | cons c front ih => simp [Mode.through, Text.byteLength, ih, Nat.add_assoc]

theorem compileFrom_append (mode : Mode) (offset : Nat) (front rest : List Char) :
    compileFrom mode offset (front ++ rest) =
      (compileFrom (mode.through offset front).2 (offset + Text.byteLength front) rest).map
        ((mode.through offset front).1 ++ ·) := by
  induction front generalizing mode offset with
  | nil =>
      rw [List.nil_append, Mode.through, Text.byteLength, Nat.add_zero]
      cases compileFrom mode offset rest <;> rfl
  | cons c front ih =>
      rw [List.cons_append, compileFrom_cons, ih, Mode.through, Text.byteLength, ← Nat.add_assoc]
      cases compileFrom ((mode.next offset c).through (offset + c.utf8Size) front).2
        (offset + c.utf8Size + Text.byteLength front) rest <;> rfl

theorem Mode.HidesSemicolons.suffix {front rest : List Char} (hides : mode.HidesSemicolons offset (front ++ rest)) :
    (mode.through offset front).2.HidesSemicolons (offset + Text.byteLength front) rest := by
  intro i inside found code
  refine hides (front.length + i) (by simpa using inside) ?_ ?_
  · rw [List.getElem?_append_right (Nat.le_add_right _ _), Nat.add_sub_cancel_left, found]
  · rw [List.take_length_add_append, through_append]
    exact code

theorem Mode.HidesSemicolons.front {front rest : List Char} (hides : mode.HidesSemicolons offset (front ++ rest)) :
    mode.HidesSemicolons offset front := by
  intro i inside found
  have here := hides i (by rw [List.length_append]; omega) (by rw [List.getElem?_append_left inside, found])
  rwa [List.take_append_of_le_length (Nat.le_of_lt inside)] at here

/-! ## Stretches of one mode -/

theorem through_keep {text : List Char} (stays : ∀ c ∈ text, ∀ offset, mode.next offset c = mode)
    (plain : ∀ c ∈ text, mode.plain c = c) (offset : Nat) : mode.through offset text = (text, mode) := by
  induction text generalizing offset with
  | nil => rfl
  | cons c rest ih =>
      rw [Mode.through, stays c (by simp), plain c (by simp),
        ih (fun d member => stays d (by simp [member])) fun d member => plain d (by simp [member])]

theorem through_comment {body : List Char} (unbroken : ∀ c ∈ body, Lexeme.isLineBreak c = false) (offset : Nat) :
    Mode.comment.through offset body = (body, .comment) :=
  through_keep (fun c member _ => by simp [Mode.next, unbroken c member]) (fun c _ => by simp [Mode.plain]) offset

theorem through_code {text : List Char} (noMark : ∀ c ∈ text, c ≠ '"' ∧ c ≠ '#') (offset : Nat) :
    Mode.code.through offset text = (text, .code) :=
  through_keep (fun c member _ => by simp [Mode.next, noMark c member])
    (fun c member => by simp [Mode.plain, noMark c member]) offset

theorem through_string {text body after : List Char} (closed : Text.closeQuote text = some (body, after))
    (start offset : Nat) : (Mode.string start false).through offset (body ++ ['"']) = (body ++ ['"'], .code) := by
  fun_induction Text.closeQuote text generalizing body after offset with
  | case1 => cases closed
  | case2 rest => cases closed; rfl
  | case3 c rest ih =>
      obtain ⟨⟨inner, tail⟩, found, same⟩ := Option.map_eq_some_iff.mp closed
      cases same
      simp [Mode.through, Mode.next, Mode.plain, ih found]
  | case4 => cases closed
  | case5 c rest noQuote noEscape noEnd ih =>
      obtain ⟨⟨inner, tail⟩, found, same⟩ := Option.map_eq_some_iff.mp closed
      cases same
      have noQuote : c ≠ '"' := fun same => noQuote same
      have noBackslash := beq_eq_false_iff_ne.mpr (Text.ne_backslash noEscape noEnd)
      simp [Mode.through, Mode.next, Mode.plain, noQuote, noBackslash, ih found]

/-- A string that nothing closes does not compile. -/
theorem compileFrom_openString {text : List Char} (unclosed : Text.closeQuote text = none) (start offset : Nat) :
    compileFrom (.string start false) offset text = .error (.openString start) := by
  fun_induction Text.closeQuote text generalizing offset with
  | case1 => rfl
  | case2 rest => cases unclosed
  | case3 c rest ih =>
      rw [compileFrom_cons, compileFrom_cons]
      simp [Mode.next, ih (Option.map_eq_none_iff.mp unclosed), Except.map]
  | case4 => rfl
  | case5 c rest noQuote noEscape noEnd ih =>
      have noQuote : c ≠ '"' := fun same => noQuote same
      have noBackslash := beq_eq_false_iff_ne.mpr (Text.ne_backslash noEscape noEnd)
      rw [compileFrom_cons]
      simp [Mode.next, noQuote, noBackslash, ih (Option.map_eq_none_iff.mp unclosed), Except.map]

/-! A line that ends in a comment ends like one that does not. -/

theorem next_comment {c : Char} (lineBreak : Lexeme.isLineBreak c = true) (offset : Nat) :
    Mode.comment.next offset c = Mode.code.next offset c ∧ Mode.comment.plain c = Mode.code.plain c := by
  simp only [Lexeme.isLineBreak, Bool.or_eq_true, beq_iff_eq] at lineBreak
  rcases lineBreak with rfl | rfl <;> exact ⟨rfl, rfl⟩

theorem code_of_break (unquoted : (mode.through offset ['\n']).2.isString = false) :
    (mode.through offset ['\n']).2 = .code := by
  cases mode with
  | code => rfl
  | comment => rfl
  | string start escaped => cases escaped <;> cases unquoted

/-- Where a line starts and no string is open is code. -/
theorem code_of_lineStart {front : List Char} (fresh : front = [] ∨ ∃ before, front = before ++ ['\n'])
    (unquoted : (Mode.code.through 0 front).2.isString = false) : (Mode.code.through 0 front).2 = .code := by
  rcases fresh with rfl | ⟨before, rfl⟩
  · rfl
  · rw [through_append] at unquoted ⊢
    exact code_of_break unquoted

theorem compileFrom_comment {text : List Char} (breaks : ∀ c ∈ text.head?, Lexeme.isLineBreak c = true)
    (offset : Nat) : compileFrom .comment offset text = compileFrom .code offset text := by
  cases text with
  | nil => rfl
  | cons c rest =>
      obtain ⟨next, plain⟩ := next_comment (breaks c rfl) offset
      rw [compileFrom_cons, compileFrom_cons, next, plain]

theorem Mode.HidesSemicolons.of_comment {text : List Char} (hides : Mode.comment.HidesSemicolons offset text)
    (breaks : ∀ c ∈ text.head?, Lexeme.isLineBreak c = true) : Mode.code.HidesSemicolons offset text := by
  intro i inside found
  cases text with
  | nil => cases found
  | cons c rest =>
      have lineBreak := breaks c rfl
      cases i with
      | zero =>
          obtain rfl : c = ';' := Option.some.inj found
          cases lineBreak
      | succ i =>
          have here := hides (i + 1) inside found
          rw [List.take_succ_cons, Mode.through, (next_comment lineBreak offset).1] at here
          exact here

end Literate

/-! ## Lexemes in a row -/

namespace Lexeme

/-- The characters of a lexeme in literate text. -/
def hashText : Lexeme → List Char
  | line body => '#' :: body
  | lexeme => lexeme.text

def hashTexts (lexemes : List Lexeme) : List Char := lexemes.flatMap hashText

def isLiterate : Lexeme → Bool
  | block _ => false
  | lexeme => !lexeme.isStray

@[simp] theorem hashTexts_nil : hashTexts [] = [] := rfl

@[simp] theorem hashTexts_cons (lexeme : Lexeme) (rest : List Lexeme) :
    hashTexts (lexeme :: rest) = lexeme.hashText ++ hashTexts rest := rfl

@[simp] theorem hashTexts_append (left right : List Lexeme) :
    hashTexts (left ++ right) = hashTexts left ++ hashTexts right := by
  simp [hashTexts]

theorem byteLength_hashTexts (lexemes : List Lexeme) :
    Text.byteLength (hashTexts lexemes) = Text.byteLength (texts lexemes) := by
  induction lexemes with
  | nil => rfl
  | cons lexeme rest ih =>
      rw [hashTexts_cons, texts_cons, Text.byteLength_append, Text.byteLength_append, ih]
      cases lexeme <;> rfl

theorem Opens.hashText_ne_nil {lexeme : Lexeme} {after : List Char} (opens : lexeme.Opens after) :
    lexeme.hashText ≠ [] := by
  cases lexeme with
  | line body => exact List.cons_ne_nil _ _
  | _ => exact opens.text_ne_nil

theorem not_stray_of_isLiterate {lexeme : Lexeme} (literate : lexeme.isLiterate = true) : lexeme.isStray = false := by
  cases lexeme with
  | mark c => simpa [isLiterate] using literate
  | _ => rfl

/-- What ends before a row of lexemes ends before it in both ways of writing. -/
theorem endsBefore_hashTexts {lexeme : Lexeme} {lexemes : List Lexeme} {after : List Char}
    (leads : Leads after lexemes) : lexeme.EndsBefore (hashTexts lexemes) ↔ lexeme.EndsBefore (texts lexemes) := by
  cases lexemes with
  | nil => exact Iff.rfl
  | cons first rest =>
      have same {left right : List Char} (heads : left.head? = right.head?) :
          lexeme.EndsBefore left ↔ lexeme.EndsBefore right :=
        ⟨fun ends => ends.of_head heads, fun ends => ends.of_head heads.symm⟩
      cases first with
      | line body =>
          cases lexeme with
          | line outer => simp [EndsBefore, hashText, text, isLineBreak]
          | word characters => simp [EndsBefore, hashText, text, isSymbolChar, isSymbolStart]
          | _ => exact Iff.rfl
      | _ =>
          obtain ⟨c, tail, begins⟩ := List.exists_cons_of_ne_nil leads.1.text_ne_nil
          refine same ?_
          rw [hashTexts_cons, texts_cons, hashText, begins]
          · rfl
          · simp

theorem through_lexeme {lexeme : Lexeme} {after : List Char} (opens : lexeme.Opens after)
    (literate : lexeme.isLiterate = true) (offset : Nat) :
    Literate.Mode.code.through offset lexeme.hashText =
      (lexeme.text, if lexeme matches line _ then .comment else .code) := by
  cases lexeme with
  | string body =>
      obtain ⟨c, rest, same, found⟩ := opens
      obtain ⟨rfl, tail, quoted⟩ := first_string.mp found
      simp [hashText, text, Literate.Mode.through, Literate.Mode.next, Literate.Mode.plain,
        Literate.through_string quoted]
  | block body => cases literate
  | line body =>
      simp [hashText, text, Literate.Mode.through, Literate.Mode.next, Literate.Mode.plain,
        Literate.through_comment (opens_line.mp opens).1]
  | word characters =>
      refine Literate.through_code (fun c member => ?_) offset
      have symbol := (opens_word.mp opens).2.1 c member
      constructor <;> (rintro rfl; revert symbol; decide)
  | mark c =>
      refine Literate.through_code (fun d member => ?_) offset
      obtain rfl := List.mem_singleton.mp member
      simpa [isLiterate, isStray] using literate

theorem compileFrom_lexeme {lexeme : Lexeme} {after rest : List Char} (opens : lexeme.Opens after)
    (literate : lexeme.isLiterate = true) (ends : lexeme.EndsBefore rest) (offset : Nat) :
    Literate.compileFrom .code offset (lexeme.hashText ++ rest) =
      (Literate.compileFrom .code (offset + Text.byteLength lexeme.hashText) rest).map (lexeme.text ++ ·) := by
  rw [Literate.compileFrom_append, through_lexeme opens literate]
  cases lexeme with
  | line body =>
      dsimp only
      rw [if_pos rfl, Literate.compileFrom_comment ends]
  | _ => rfl

/-- Lexemes in a row compile to their plain text. -/
theorem compileFrom_hashTexts {lexemes : List Lexeme} (leads : Leads [] lexemes)
    (literate : ∀ lexeme ∈ lexemes, lexeme.isLiterate = true) (offset : Nat) :
    Literate.compileFrom .code offset (hashTexts lexemes) = .ok (texts lexemes) := by
  induction lexemes generalizing offset with
  | nil => rfl
  | cons lexeme rest ih =>
      obtain ⟨opens, leadsRest⟩ := leads
      rw [List.append_nil] at opens
      have ends := (endsBefore_hashTexts leadsRest).mpr opens.endsBefore
      rw [hashTexts_cons, compileFrom_lexeme opens (literate lexeme (by simp)) ends,
        ih leadsRest (fun other member => literate other (by simp [member])) _]
      rfl

theorem all_of_compile {lexemes : List Lexeme} {compiled : List Char} (leads : Leads [] lexemes)
    (literate : ∀ lexeme ∈ lexemes, lexeme.isLiterate = true)
    (compiles : Literate.compile (hashTexts lexemes) = .ok compiled) : all compiled = lexemes := by
  obtain rfl := Except.ok.inj ((compileFrom_hashTexts leads literate 0).symm.trans compiles)
  simpa using all_of_leads leads

/-- The first lexeme of literate text that compiles. -/
theorem exists_first {c : Char} {rest compiled : List Char} {offset : Nat}
    (compiles : Literate.compileFrom .code offset (c :: rest) = .ok compiled) (noSemicolon : c ≠ ';') :
    ∃ (lexeme : Lexeme) (after : List Char), c :: rest = lexeme.hashText ++ after ∧ lexeme.isLiterate = true ∧ lexeme.Opens after := by
  by_cases quote : c = '"'
  · subst quote
    cases closed : Text.closeQuote rest with
    | none =>
        rw [Literate.compileFrom_cons] at compiles
        simp [Literate.Mode.next, Literate.compileFrom_openString closed, Except.map] at compiles
    | some parts =>
        obtain ⟨body, after⟩ := parts
        have split := Text.closeQuote_text closed
        refine ⟨string body, after, by simp [hashText, text, split], rfl, '"', rest, by simp [text, split], ?_⟩
        exact first_string.mpr ⟨rfl, after, closed⟩
  by_cases hash : c = '#'
  · subst hash
    have cut := List.takeWhile_append_dropWhile (p := (!isLineBreak ·)) (l := rest)
    refine ⟨line (rest.takeWhile (!isLineBreak ·)), rest.dropWhile (!isLineBreak ·), by simp [hashText, cut], rfl, ?_⟩
    exact ⟨';', rest, by simp [text, cut], first_line.mpr ⟨rfl, rfl⟩⟩
  cases symbol : isSymbolChar c with
  | true =>
      have cut := List.takeWhile_append_dropWhile (p := isSymbolChar) (l := rest)
      refine ⟨word (c :: rest.takeWhile isSymbolChar), rest.dropWhile isSymbolChar, by simp [hashText, text, cut], rfl, ?_⟩
      exact ⟨c, rest, by simp [text, cut], first_word.mpr ⟨symbol, rfl⟩⟩
  | false =>
      refine ⟨mark c, rest, rfl, by simp [isLiterate, isStray, quote, hash], c, rest, rfl, ?_⟩
      simp [first, quote, hash, noSemicolon, symbol]

/-- Literate text that compiles and hides its semicolons is lexemes in a row. -/
theorem exists_row {text compiled : List Char} {offset : Nat}
    (compiles : Literate.compileFrom .code offset text = .ok compiled)
    (hides : Literate.Mode.code.HidesSemicolons offset text) :
    ∃ lexemes, Leads [] lexemes ∧ (∀ lexeme ∈ lexemes, lexeme.isLiterate = true) ∧ hashTexts lexemes = text := by
  induction size : text.length using Nat.strongRecOn generalizing text compiled offset with
  | ind bound ih =>
      cases text with
      | nil => exact ⟨[], trivial, by simp, rfl⟩
      | cons c rest =>
          have noSemicolon : c ≠ ';' := by
            rintro rfl
            exact hides 0 (by simp) rfl rfl
          obtain ⟨lexeme, after, split, literate, opens⟩ := exists_first compiles noSemicolon
          rw [split] at compiles hides size
          have shorter : after.length < bound := by
            have positive := List.length_pos_iff.mpr opens.hashText_ne_nil
            rw [List.length_append] at size
            omega
          rw [compileFrom_lexeme opens literate opens.endsBefore] at compiles
          have hidesAfter : Literate.Mode.code.HidesSemicolons (offset + Text.byteLength lexeme.hashText) after := by
            have suffix := hides.suffix
            rw [through_lexeme opens literate] at suffix
            cases lexeme with
            | line body => exact suffix.of_comment opens.endsBefore
            | _ => exact suffix
          cases later : Literate.compileFrom .code (offset + Text.byteLength lexeme.hashText) after with
          | error fault => rw [later] at compiles; cases compiles
          | ok others =>
              obtain ⟨row, leads, literateRow, rfl⟩ := ih after.length shorter later hidesAfter rfl
              refine ⟨lexeme :: row, ⟨?_, leads⟩, List.forall_mem_cons.mpr ⟨literate, literateRow⟩, split.symm⟩
              rw [List.append_nil]
              exact opens.change (not_stray_of_isLiterate literate) ((endsBefore_hashTexts leads).mp opens.endsBefore)

end Lexeme

end Exemplar
