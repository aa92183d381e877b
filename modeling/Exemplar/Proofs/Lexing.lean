import Exemplar.Lexeme

/-!
# Lexemes in a text

The lexemes of a text give it back. Which lexeme opens a text depends on what follows it only through the next
character, unless the lexeme is a mark that nothing closes; texts can therefore be cut and joined lexeme by lexeme.
-/

namespace Exemplar

namespace Text

theorem closeQuote_text {text body after : List Char} (closed : closeQuote text = some (body, after)) :
    text = body ++ '"' :: after := by
  fun_induction closeQuote text generalizing body after with
  | case1 => cases closed
  | case2 rest => cases closed; rfl
  | case3 c rest ih | case5 c rest _ _ _ ih =>
      obtain ⟨⟨inner, tail⟩, found, same⟩ := Option.map_eq_some_iff.mp closed
      cases same
      rw [ih found]
      rfl
  | case4 => cases closed

/-- A character that escapes nothing, not even at the end of a text, is no backslash. -/
theorem ne_backslash {c : Char} {rest : List Char} (noEscape : ∀ d more, c = '\\' → rest = d :: more → False)
    (noEnd : c = '\\' → rest = [] → False) : c ≠ '\\' := by
  intro same
  cases rest with
  | nil => exact noEnd same rfl
  | cons d more => exact noEscape d more same rfl

theorem closeQuote_before {text body after : List Char} (closed : closeQuote text = some (body, after))
    (other : List Char) : closeQuote (body ++ '"' :: other) = some (body, other) := by
  fun_induction closeQuote text generalizing body after with
  | case1 => cases closed
  | case2 rest => cases closed; rfl
  | case3 c rest ih =>
      obtain ⟨⟨inner, tail⟩, found, same⟩ := Option.map_eq_some_iff.mp closed
      cases same
      simp [closeQuote, ih found]
  | case4 => cases closed
  | case5 c rest noQuote noEscape noEnd ih =>
      obtain ⟨⟨inner, tail⟩, found, same⟩ := Option.map_eq_some_iff.mp closed
      cases same
      have plain := ne_backslash noEscape noEnd
      rw [List.cons_append, closeQuote, ih found]
      · rfl
      · exact noQuote
      · exact fun d more same => absurd same plain
      · exact fun same => absurd same plain

end Text

namespace Lexeme

theorem closeBlock_text {text body after : List Char} (closed : closeBlock text = some (body, after)) :
    text = body ++ '|' :: '#' :: after := by
  fun_induction closeBlock text generalizing body after with
  | case1 => cases closed
  | case2 rest => cases closed; rfl
  | case3 c rest _ ih =>
      obtain ⟨⟨inner, tail⟩, found, same⟩ := Option.map_eq_some_iff.mp closed
      cases same
      rw [ih found]
      rfl

theorem closeBlock_before {text body after : List Char} (closed : closeBlock text = some (body, after))
    (other : List Char) : closeBlock (body ++ '|' :: '#' :: other) = some (body, other) := by
  fun_induction closeBlock text generalizing body after with
  | case1 => cases closed
  | case2 rest => cases closed; rfl
  | case3 c rest notClosing ih =>
      obtain ⟨⟨inner, tail⟩, found, same⟩ := Option.map_eq_some_iff.mp closed
      cases same
      rw [List.cons_append, closeBlock, ih found]
      · rfl
      · intro more bar hash
        have text := closeBlock_text found
        cases inner with
        | nil => simp at hash
        | cons d inner =>
            have next : d = '#' := (List.cons.inj hash).1
            rw [next] at text
            exact notClosing _ bar text

/-! ## The first lexeme -/

theorem first_string {c : Char} {rest body : List Char} :
    first c rest = string body ↔ c = '"' ∧ ∃ after, Text.closeQuote rest = some (body, after) := by
  unfold first
  split
  · next quote =>
      cases closed : Text.closeQuote rest with
      | none => simp
      | some parts => obtain ⟨inner, after⟩ := parts; simp [quote]
  · next other => constructor <;> intro found <;> grind

theorem first_block {c : Char} {rest body : List Char} :
    first c rest = block body ↔
      c = '#' ∧ ∃ inner after, rest = '|' :: inner ∧ closeBlock inner = some (body, after) := by
  unfold first
  constructor
  · intro found
    split at found
    · split at found <;> cases found
    · split at found
      · cases found
      · split at found
        · next hash =>
            split at found
            · next inner =>
                split at found
                · next closed => cases found; exact ⟨hash, inner, _, rfl, closed⟩
                · cases found
            · cases found
        · split at found <;> cases found
  · rintro ⟨rfl, inner, after, rfl, closed⟩
    simp [closed]

theorem first_line {c : Char} {rest body : List Char} :
    first c rest = line body ↔ c = ';' ∧ body = rest.takeWhile (!isLineBreak ·) := by
  unfold first
  constructor
  · intro found
    split at found
    · split at found <;> cases found
    · split at found
      · next semicolon => cases found; exact ⟨semicolon, rfl⟩
      · grind
  · rintro ⟨rfl, rfl⟩
    simp

theorem first_word {c : Char} {rest text : List Char} :
    first c rest = word text ↔ isSymbolChar c = true ∧ text = c :: rest.takeWhile isSymbolChar := by
  unfold first
  constructor
  · intro found
    split at found
    · split at found <;> cases found
    · split at found
      · cases found
      · split at found
        · split at found
          · split at found <;> cases found
          · cases found
        · split at found
          · next symbol => cases found; exact ⟨symbol, rfl⟩
          · cases found
  · rintro ⟨symbol, rfl⟩
    have noQuote : c ≠ '"' := by rintro rfl; revert symbol; decide
    have noSemicolon : c ≠ ';' := by rintro rfl; revert symbol; decide
    have noHash : c ≠ '#' := by rintro rfl; revert symbol; decide
    simp [noQuote, noSemicolon, noHash, symbol]

theorem first_mark {c d : Char} {rest : List Char} (found : first c rest = mark d) : d = c := by
  unfold first at found
  grind

theorem first_text (c : Char) (rest : List Char) : ∃ after, c :: rest = (first c rest).text ++ after := by
  cases found : first c rest with
  | string body =>
      obtain ⟨rfl, after, closed⟩ := first_string.mp found
      exact ⟨after, by simp [text, Text.closeQuote_text closed]⟩
  | block body =>
      obtain ⟨rfl, inner, after, rfl, closed⟩ := first_block.mp found
      exact ⟨after, by simp [text, closeBlock_text closed]⟩
  | line body =>
      obtain ⟨rfl, rfl⟩ := first_line.mp found
      exact ⟨rest.dropWhile (!isLineBreak ·), by simp [text]⟩
  | word characters =>
      obtain ⟨_, rfl⟩ := first_word.mp found
      exact ⟨rest.dropWhile isSymbolChar, by simp [text]⟩
  | mark d => exact ⟨rest, by simp [text, first_mark found]⟩

theorem first_text_ne_nil (c : Char) (rest : List Char) : (first c rest).text ≠ [] := by
  cases found : first c rest with
  | word characters =>
      obtain ⟨_, rfl⟩ := first_word.mp found
      exact List.cons_ne_nil c _
  | _ => simp [text]

/-! ## Lexemes before a text -/

def texts (lexemes : List Lexeme) : List Char := lexemes.flatMap text

@[simp] theorem texts_nil : texts [] = [] := rfl

@[simp] theorem texts_cons (lexeme : Lexeme) (rest : List Lexeme) :
    texts (lexeme :: rest) = lexeme.text ++ texts rest := rfl

@[simp] theorem texts_append (left right : List Lexeme) :
    texts (left ++ right) = texts left ++ texts right := by
  simp [texts]

/-- `lexeme` is the first lexeme of its own characters followed by `after`. -/
def Opens (lexeme : Lexeme) (after : List Char) : Prop :=
  ∃ c rest, lexeme.text ++ after = c :: rest ∧ first c rest = lexeme

theorem scan_eq_all (skip : Nat) (text : List Char) : scan skip text = all (text.drop skip) := by
  induction text generalizing skip with
  | nil => simp [scan, all]
  | cons c rest ih =>
      cases skip with
      | zero => rfl
      | succ skip => simpa [scan] using ih skip

@[simp] theorem all_nil : all [] = [] := rfl

theorem all_of_opens (lexeme : Lexeme) {after : List Char} (opens : lexeme.Opens after) :
    all (lexeme.text ++ after) = lexeme :: all after := by
  obtain ⟨c, rest, same, found⟩ := opens
  have left : (c :: rest).drop lexeme.text.length = after := by rw [← same]; simp
  have positive : lexeme.text.length ≠ 0 := by
    rw [← found]
    exact fun empty => first_text_ne_nil c rest (List.eq_nil_of_length_eq_zero empty)
  rw [same, all, scan, found, scan_eq_all]
  congr 2
  obtain ⟨length, isSucc⟩ := Nat.exists_eq_succ_of_ne_zero positive
  rw [isSucc] at left ⊢
  simpa using left

theorem opens_first {c : Char} {rest after : List Char} (same : c :: rest = (first c rest).text ++ after) :
    (first c rest).Opens after := ⟨c, rest, same.symm, rfl⟩

/-- Every lexeme of a row is the first one of what it begins, when `after` follows the row. -/
def Leads (after : List Char) : List Lexeme → Prop
  | [] => True
  | lexeme :: rest => lexeme.Opens (texts rest ++ after) ∧ Leads after rest

theorem all_of_leads {lexemes : List Lexeme} {after : List Char} (leads : Leads after lexemes) :
    all (texts lexemes ++ after) = lexemes ++ all after := by
  induction lexemes with
  | nil => rfl
  | cons lexeme rest ih =>
      rw [texts_cons, List.append_assoc, all_of_opens _ leads.1, ih leads.2, List.cons_append]

theorem leads_append {left right : List Lexeme} {after : List Char} :
    Leads after (left ++ right) ↔ Leads (texts right ++ after) left ∧ Leads after right := by
  induction left with
  | nil => simp [Leads]
  | cons lexeme rest ih => simp [Leads, ih, and_assoc]

theorem all_spec (text : List Char) : texts (all text) = text ∧ Leads [] (all text) := by
  induction size : text.length using Nat.strongRecOn generalizing text with
  | ind bound ih =>
      cases text with
      | nil => exact ⟨rfl, trivial⟩
      | cons c rest =>
          obtain ⟨after, same⟩ := first_text c rest
          have opens := opens_first same
          have shorter : after.length < bound := by
            have lengths := congrArg List.length same
            have positive := List.length_pos_iff.mpr (first_text_ne_nil c rest)
            rw [List.length_append] at lengths
            omega
          obtain ⟨gives, leads⟩ := ih after.length shorter after rfl
          rw [same, all_of_opens _ opens]
          exact ⟨by rw [texts_cons, gives], by rw [Leads, gives, List.append_nil]; exact ⟨opens, leads⟩⟩

@[simp] theorem texts_all (text : List Char) : texts (all text) = text := (all_spec text).1

theorem leads_all (text : List Char) : Leads [] (all text) := (all_spec text).2

/-! ## What may follow a lexeme -/

/-- A quote or a comment mark that nothing closes. -/
def isStray : Lexeme → Bool
  | mark c => c == '"' || c == '#'
  | _ => false

/-- `lexeme` ends before the text `after`: a line comment at a line break, a word where no more of it can come. -/
def EndsBefore (lexeme : Lexeme) (after : List Char) : Prop :=
  match lexeme with
  | line _ => ∀ c ∈ after.head?, isLineBreak c = true
  | word _ => ∀ c ∈ after.head?, isSymbolChar c = false
  | _ => True

theorem EndsBefore.of_head {lexeme : Lexeme} {after other : List Char} (ends : lexeme.EndsBefore after)
    (same : after.head? = other.head?) : lexeme.EndsBefore other := by
  cases lexeme <;> simp_all [EndsBefore]

theorem Opens.text_ne_nil {lexeme : Lexeme} {after : List Char} (opens : lexeme.Opens after) :
    lexeme.text ≠ [] := by
  obtain ⟨c, rest, _, rfl⟩ := opens
  exact first_text_ne_nil c rest

/-- A run of characters of a class is all that a longer text has of the class when no more of them follows. -/
theorem takeWhile_append_iff (p : Char → Bool) (run after : List Char) :
    run = (run ++ after).takeWhile p ↔ (∀ c ∈ run, p c = true) ∧ ∀ c ∈ after.head?, p c = false := by
  induction run with
  | nil =>
      cases after with
      | nil => simp
      | cons c rest => by_cases holds : p c <;> simp [holds]
  | cons c rest ih => by_cases holds : p c <;> simp [holds, ih]

theorem opens_line {body after : List Char} :
    (line body).Opens after ↔
      (∀ c ∈ body, isLineBreak c = false) ∧ ∀ c ∈ after.head?, isLineBreak c = true := by
  have whole := takeWhile_append_iff (!isLineBreak ·) body after
  simp only [Bool.not_eq_true', Bool.not_eq_false'] at whole
  rw [← whole]
  constructor
  · rintro ⟨c, rest, same, found⟩
    obtain ⟨rfl, spelled⟩ := first_line.mp found
    cases same
    exact spelled
  · intro spelled
    exact ⟨';', body ++ after, rfl, first_line.mpr ⟨rfl, spelled⟩⟩

theorem opens_word {characters after : List Char} :
    (word characters).Opens after ↔
      characters ≠ [] ∧ (∀ c ∈ characters, isSymbolChar c = true) ∧
        ∀ c ∈ after.head?, isSymbolChar c = false := by
  rw [← takeWhile_append_iff]
  constructor
  · rintro ⟨c, rest, same, found⟩
    obtain ⟨symbol, spelled⟩ := first_word.mp found
    have whole : characters ++ after = c :: rest := same
    refine ⟨by rw [spelled]; exact List.cons_ne_nil _ _, ?_⟩
    rw [whole, List.takeWhile_cons_of_pos symbol]
    exact spelled
  · rintro ⟨nonempty, spelled⟩
    cases characters with
    | nil => exact absurd rfl nonempty
    | cons c rest =>
        have symbol : isSymbolChar c = true := by
          cases symbol : isSymbolChar c with
          | true => rfl
          | false => simp [symbol] at spelled
        refine ⟨c, rest ++ after, rfl, first_word.mpr ⟨symbol, ?_⟩⟩
        rw [List.cons_append, List.takeWhile_cons_of_pos symbol] at spelled
        exact spelled

theorem Opens.endsBefore {lexeme : Lexeme} {after : List Char} (opens : lexeme.Opens after) :
    lexeme.EndsBefore after := by
  cases lexeme with
  | line body => exact (opens_line.mp opens).2
  | word characters => exact (opens_word.mp opens).2.2
  | _ => trivial

/-- A lexeme that is no stray mark opens any text in which it can end where it ends. -/
theorem Opens.change {lexeme : Lexeme} {after other : List Char} (opens : lexeme.Opens after)
    (closed : lexeme.isStray = false) (ends : lexeme.EndsBefore other) : lexeme.Opens other := by
  cases lexeme with
  | line body => exact opens_line.mpr ⟨(opens_line.mp opens).1, ends⟩
  | word characters =>
      obtain ⟨nonempty, symbols, _⟩ := opens_word.mp opens
      exact opens_word.mpr ⟨nonempty, symbols, ends⟩
  | string body =>
      obtain ⟨c, rest, same, found⟩ := opens
      obtain ⟨rfl, tail, quoted⟩ := first_string.mp found
      exact ⟨'"', body ++ '"' :: other, by simp [text],
        first_string.mpr ⟨rfl, other, Text.closeQuote_before quoted other⟩⟩
  | block body =>
      obtain ⟨c, rest, same, found⟩ := opens
      obtain ⟨rfl, inner, tail, rfl, ended⟩ := first_block.mp found
      exact ⟨'#', '|' :: (body ++ '|' :: '#' :: other), by simp [text],
        first_block.mpr ⟨rfl, _, other, rfl, closeBlock_before ended other⟩⟩
  | mark c =>
      obtain ⟨d, rest, same, found⟩ := opens
      obtain rfl := first_mark found
      refine ⟨c, other, rfl, ?_⟩
      simp only [isStray, Bool.or_eq_false_iff, beq_eq_false_iff_ne] at closed
      unfold first at found ⊢
      grind

/-- A row of lexemes without stray marks leads any text before which its last lexeme can end. -/
theorem Leads.change {lexemes : List Lexeme} {after other : List Char} (leads : Leads after lexemes)
    (closed : ∀ lexeme ∈ lexemes, lexeme.isStray = false)
    (ends : ∀ lexeme ∈ lexemes.getLast?, lexeme.EndsBefore other) : Leads other lexemes := by
  induction lexemes with
  | nil => trivial
  | cons lexeme rest ih =>
      obtain ⟨opens, leads⟩ := leads
      have here := closed lexeme (by simp)
      cases rest with
      | nil => exact ⟨opens.change here (ends lexeme (by simp)), trivial⟩
      | cons next more =>
          refine ⟨opens.change here ?_, ih leads (fun l member => closed l (by simp [member])) ?_⟩
          · refine opens.endsBefore.of_head ?_
            have nonempty : texts (next :: more) ≠ [] := by simp [leads.1.text_ne_nil]
            obtain ⟨c, tail, same⟩ := List.exists_cons_of_ne_nil nonempty
            rw [same]
            rfl
          · intro l member
            exact ends l (by simpa using member)

/-! ## Texts in a row -/

/-- The lexemes of two texts in a row are those of the two texts when the first can end there. -/
theorem all_append {left right : List Char} (closed : ∀ lexeme ∈ all left, lexeme.isStray = false)
    (ends : ∀ lexeme ∈ (all left).getLast?, lexeme.EndsBefore right) :
    all (left ++ right) = all left ++ all right := by
  have joined := all_of_leads ((leads_all left).change closed ends)
  rwa [texts_all] at joined

theorem isSymbolChar_of_isLineBreak {c : Char} (lineBreak : isLineBreak c = true) : isSymbolChar c = false := by
  simp only [isLineBreak, Bool.or_eq_true, beq_iff_eq] at lineBreak
  rcases lineBreak with rfl | rfl <;> decide

theorem endsBefore_of_break (lexeme : Lexeme) {after : List Char}
    (breaks : ∀ c ∈ after.head?, isLineBreak c = true) : lexeme.EndsBefore after := by
  cases lexeme with
  | line body => exact breaks
  | word characters => exact fun c member => isSymbolChar_of_isLineBreak (breaks c member)
  | _ => trivial

theorem all_break (after : List Char) : all ('\n' :: after) = mark '\n' :: all after :=
  (mark '\n').all_of_opens ⟨'\n', after, rfl, rfl⟩

/-- A line break ends any text without stray marks. -/
theorem all_append_break {left : List Char} (closed : ∀ lexeme ∈ all left, lexeme.isStray = false)
    (after : List Char) : all (left ++ '\n' :: after) = all left ++ mark '\n' :: all after := by
  rw [all_append closed fun lexeme _ => lexeme.endsBefore_of_break (by simp [isLineBreak]), all_break]

theorem all_space (after : List Char) : all (' ' :: after) = mark ' ' :: all after :=
  (mark ' ').all_of_opens ⟨' ', after, rfl, rfl⟩

theorem all_spaces (width : Nat) (after : List Char) :
    all (List.replicate width ' ' ++ after) = List.replicate width (mark ' ') ++ all after := by
  induction width with
  | zero => rfl
  | succ width ih => rw [List.replicate_succ, List.cons_append, all_space, ih, List.replicate_succ, List.cons_append]

end Lexeme

end Exemplar
