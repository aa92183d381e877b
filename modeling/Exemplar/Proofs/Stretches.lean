import Exemplar.Proofs.Places

/-!
# The scan for comments

A text is cut into stretches up to its end, and the comments among them are the comment lexemes of the text: a run of
code holds words and single characters only, and no word reaches over its end.
-/

namespace Exemplar

namespace Stretch

def texts (stretches : List Stretch) : List Char := stretches.flatMap text

theorem length_left {whole taken after : List Char} (nonempty : taken ≠ []) (same : whole = taken ++ after) :
    after.length < whole.length := by
  have positive := List.length_pos_iff.mpr nonempty
  rw [same, List.length_append]
  omega

theorem isMarked_of_isSymbolChar {c : Char} (symbol : Lexeme.isSymbolChar c = true) (rest : List Char) :
    isMarked (c :: rest) = false := by
  unfold isMarked
  split
  · rename_i same
    rw [(List.cons.inj same).1] at symbol
    exact absurd symbol (by decide)
  · rename_i same
    rw [(List.cons.inj same).1] at symbol
    exact absurd symbol (by decide)
  · rename_i same
    rw [(List.cons.inj same).1] at symbol
    exact absurd symbol (by decide)
  · rfl

theorem codeRun_cons {c : Char} {rest : List Char} (plain : isMarked (c :: rest) = false) :
    codeRun (c :: rest) = c :: codeRun rest := by
  simp [codeRun, plain]

/-- A run of code takes words whole. -/
theorem codeRun_append {word : List Char} (symbols : ∀ c ∈ word, Lexeme.isSymbolChar c = true) (rest : List Char) :
    codeRun (word ++ rest) = word ++ codeRun rest := by
  induction word with
  | nil => rfl
  | cons c more ih =>
      have plain := isMarked_of_isSymbolChar (symbols c List.mem_cons_self) (more ++ rest)
      rw [List.cons_append, codeRun_cons plain, ih fun d member => symbols d (List.mem_cons_of_mem c member)]
      rfl

theorem codeRun_text (text : List Char) : codeRun text ++ text.drop (codeRun text).length = text := by
  induction text with
  | nil => rfl
  | cons c rest ih =>
      cases marked : isMarked (c :: rest) with
      | true => simp [codeRun, marked]
      | false =>
          rw [codeRun_cons marked]
          exact congrArg (c :: ·) ih

/-- The string or comment that a stretch is. -/
def lexeme? : Stretch → Option Lexeme
  | string body => some (.string body)
  | block body => some (.block body)
  | line body => some (.line body)
  | _ => none

theorem text_of_lexeme? {stretch : Stretch} {lexeme : Lexeme} (same : stretch.lexeme? = some lexeme) :
    stretch.text = lexeme.text := by
  cases stretch <;> cases same <;> rfl

theorem first?_plain {c : Char} {rest : List Char} (plain : isMarked (c :: rest) = false) :
    first? (c :: rest) = some (code (codeRun (c :: rest))) := by
  have run := codeRun_cons plain
  unfold isMarked at plain
  split at plain
  · cases plain
  · cases plain
  · cases plain
  · rename_i noQuote noSemicolon noHash
    have notString : string? (c :: rest) = none := by
      unfold string?
      split
      · rename_i same
        exact absurd same (noQuote _)
      · rfl
    have notBlock : block? (c :: rest) = none := by
      unfold block?
      split
      · rename_i same
        exact absurd same (noHash _)
      · rfl
    have notLine : line? (c :: rest) = none := by
      unfold line?
      split
      · rename_i same
        exact absurd same (noSemicolon _)
      · rfl
    simp [first?, notString, notBlock, notLine, code?, run]

/-- What begins as a string or a comment does and is neither is taken as one character. -/
theorem first?_open {c : Char} {rest : List Char} (marked : isMarked (c :: rest) = true)
    (found : Lexeme.first c rest = .mark c) : first? (c :: rest) = some (single c) := by
  have none : code? (c :: rest) = none := by simp [code?, codeRun, marked]
  unfold isMarked at marked
  split at marked
  · rename_i more same
    obtain ⟨rfl, rfl⟩ := List.cons.inj same
    have unclosed : Text.closeQuote rest = .none := by
      cases closed : Text.closeQuote rest with
      | none => rfl
      | some parts =>
          rw [Lexeme.first_string.mpr ⟨rfl, parts.2, closed⟩] at found
          cases found
    simp [first?, string?, block?, line?, none, single?, unclosed]
  · rename_i more same
    obtain ⟨rfl, rfl⟩ := List.cons.inj same
    rw [Lexeme.first_line.mpr ⟨rfl, rfl⟩] at found
    cases found
  · rename_i more same
    obtain ⟨rfl, rfl⟩ := List.cons.inj same
    have unclosed : Lexeme.closeBlock more = .none := by
      cases closed : Lexeme.closeBlock more with
      | none => rfl
      | some parts =>
          rw [Lexeme.first_block.mpr ⟨rfl, more, parts.2, rfl, closed⟩] at found
          cases found
    simp [first?, string?, block?, line?, none, single?, unclosed]
  · cases marked

/-- Which alternative applies: a string or a comment that the lexemes have too, one character where they have a mark
that nothing closes, or a run of code. -/
theorem first?_cases (c : Char) (rest : List Char) :
    (∃ stretch, first? (c :: rest) = some stretch ∧ stretch.lexeme? = some (Lexeme.first c rest)) ∨
      (first? (c :: rest) = some (single c) ∧ Lexeme.first c rest = .mark c) ∨
      first? (c :: rest) = some (code (codeRun (c :: rest))) ∧ isMarked (c :: rest) = false := by
  cases found : Lexeme.first c rest with
  | string body =>
      obtain ⟨rfl, after, closed⟩ := Lexeme.first_string.mp found
      exact .inl ⟨string body, by simp [first?, string?, closed], rfl⟩
  | block body =>
      obtain ⟨rfl, inner, after, rfl, closed⟩ := Lexeme.first_block.mp found
      exact .inl ⟨block body, by simp [first?, string?, block?, closed], rfl⟩
  | line body =>
      obtain ⟨rfl, rfl⟩ := Lexeme.first_line.mp found
      exact .inl ⟨line _, by simp [first?, string?, block?, line?], rfl⟩
  | word characters =>
      have plain := isMarked_of_isSymbolChar (Lexeme.first_word.mp found).1 rest
      exact .inr (.inr ⟨first?_plain plain, plain⟩)
  | mark d =>
      obtain rfl := Lexeme.first_mark found
      cases marked : isMarked (d :: rest) with
      | false => exact .inr (.inr ⟨first?_plain marked, rfl⟩)
      | true => exact .inr (.inl ⟨first?_open marked found, rfl⟩)

/-- Something is taken from every text that is not at its end. -/
theorem first?_text {text : List Char} (left : text ≠ []) :
    ∃ stretch after, first? text = some stretch ∧ stretch.text ≠ [] ∧ text = stretch.text ++ after := by
  obtain ⟨c, rest, rfl⟩ := List.exists_cons_of_ne_nil left
  rcases first?_cases c rest with ⟨stretch, first, same⟩ | ⟨first, -⟩ | ⟨first, plain⟩
  · obtain ⟨after, whole⟩ := Lexeme.first_text c rest
    refine ⟨stretch, after, first, ?_, ?_⟩
    · rw [text_of_lexeme? same]
      exact Lexeme.first_text_ne_nil c rest
    · rw [text_of_lexeme? same]
      exact whole
  · exact ⟨single c, rest, first, List.cons_ne_nil c [], rfl⟩
  · refine ⟨_, _, first, ?_, (codeRun_text (c :: rest)).symm⟩
    rw [text, codeRun_cons plain]
    exact List.cons_ne_nil c _

/-- In a run of code the opening lexeme is a word or a mark, and the run goes on behind it. -/
theorem codeRun_first {c : Char} {rest after : List Char} (plain : isMarked (c :: rest) = false)
    (whole : c :: rest = (Lexeme.first c rest).text ++ after) :
    ((∃ characters, Lexeme.first c rest = .word characters) ∨ Lexeme.first c rest = .mark c) ∧
      codeRun (c :: rest) = (Lexeme.first c rest).text ++ codeRun after := by
  cases found : Lexeme.first c rest with
  | string body =>
      obtain ⟨rfl, -⟩ := Lexeme.first_string.mp found
      cases plain
  | block body =>
      obtain ⟨rfl, inner, after, rfl, -⟩ := Lexeme.first_block.mp found
      cases plain
  | line body =>
      obtain ⟨rfl, -⟩ := Lexeme.first_line.mp found
      cases plain
  | word characters =>
      obtain ⟨symbol, rfl⟩ := Lexeme.first_word.mp found
      refine ⟨.inl ⟨_, rfl⟩, ?_⟩
      rw [found] at whole
      rw [whole]
      refine codeRun_append (fun d member => ?_) after
      rcases List.mem_cons.mp member with rfl | later
      · exact symbol
      · exact List.all_eq_true.mp List.all_takeWhile d later
  | mark d =>
      obtain rfl := Lexeme.first_mark found
      rw [found] at whole
      obtain rfl : rest = after := (List.cons.inj whole).2
      exact ⟨.inr rfl, codeRun_cons plain⟩

theorem scan_eq_all (skip : Nat) (text : List Char) : scan skip text = all (text.drop skip) := by
  induction text generalizing skip with
  | nil => simp [scan, all]
  | cons c rest ih =>
      cases skip with
      | zero => rfl
      | succ skip => simpa [scan] using ih skip

theorem all_of_first? (stretch : Stretch) {after : List Char} (nonempty : stretch.text ≠ [])
    (first : first? (stretch.text ++ after) = some stretch) :
    all (stretch.text ++ after) = stretch :: all after := by
  obtain ⟨c, rest, same⟩ := List.exists_cons_of_ne_nil nonempty
  rw [same, List.cons_append] at first ⊢
  rw [all, scan, first]
  show stretch :: scan (stretch.text.length - 1) (rest ++ after) = _
  rw [scan_eq_all, same]
  simp

/-- The cut of a text ends only where the text does. -/
theorem texts_all (text : List Char) : texts (all text) = text := by
  induction size : text.length using Nat.strongRecOn generalizing text with
  | ind bound ih =>
      by_cases empty : text = []
      · rw [empty]
        rfl
      · obtain ⟨stretch, after, first, nonempty, rfl⟩ := first?_text empty
        have shorter := length_left nonempty (rfl : stretch.text ++ after = _)
        rw [all_of_first? stretch nonempty first, texts, List.flatMap_cons]
        exact congrArg (stretch.text ++ ·) (ih after.length (size ▸ shorter) after rfl)

end Stretch

namespace Comment

/-- A run of code holds no comment. -/
theorem ofLexemes_codeRun (p : Position) (text : List Char) :
    ofLexemes p (Lexeme.all text) =
      ofLexemes (p.advance (Stretch.codeRun text)) (Lexeme.all (text.drop (Stretch.codeRun text).length)) := by
  induction size : text.length using Nat.strongRecOn generalizing p text with
  | ind bound ih =>
      cases text with
      | nil => rfl
      | cons c rest =>
          cases marked : Stretch.isMarked (c :: rest) with
          | true => simp [Stretch.codeRun, marked]
          | false =>
              obtain ⟨after, whole⟩ := Lexeme.first_text c rest
              have lexemes := Lexeme.all_of_opens _ (Lexeme.opens_first whole)
              have shorter := Stretch.length_left (Lexeme.first_text_ne_nil c rest) whole
              have later := ih after.length (size ▸ shorter) (p.advance (Lexeme.first c rest).text) after rfl
              obtain ⟨isCode, run⟩ := Stretch.codeRun_first marked whole
              have noComment : ofLexeme? p (Lexeme.first c rest) = none := by
                rcases isCode with ⟨characters, word⟩ | mark
                · rw [word]; rfl
                · rw [mark]; rfl
              rw [run, whole, lexemes, ofLexemes_cons, noComment, later, Position.advance_append, List.length_append,
                ← List.drop_drop, List.drop_left]
              rfl

theorem ofStretches_cons {stretch : Stretch} {lexeme : Lexeme} (same : stretch.lexeme? = some lexeme) (p : Position)
    (rest : List Stretch) : ofStretches p (stretch :: rest) =
      (ofLexeme? p lexeme).toList ++ ofStretches (p.advance lexeme.text) rest := by
  cases stretch <;> cases same <;> rfl

theorem ofStretches_all (p : Position) (text : List Char) :
    ofStretches p (Stretch.all text) = ofLexemes p (Lexeme.all text) := by
  induction size : text.length using Nat.strongRecOn generalizing p text with
  | ind bound ih =>
      cases text with
      | nil => rfl
      | cons c rest =>
          rcases Stretch.first?_cases c rest with ⟨stretch, first, same⟩ | ⟨first, mark⟩ | ⟨first, plain⟩
          · obtain ⟨after, whole⟩ := Lexeme.first_text c rest
            have texts := Stretch.text_of_lexeme? same
            have nonempty := Lexeme.first_text_ne_nil c rest
            have shorter := Stretch.length_left nonempty whole
            have lexemes := Lexeme.all_of_opens _ (Lexeme.opens_first whole)
            rw [← texts] at nonempty
            rw [whole, ← texts] at first
            rw [whole, lexemes, ofLexemes_cons, ← texts, Stretch.all_of_first? stretch nonempty first,
              ofStretches_cons same, texts, ih after.length (size ▸ shorter) _ after rfl]
          · have stretches := Stretch.all_of_first? (.single c) (List.cons_ne_nil c []) first
            have lexemes := Lexeme.all_of_opens (.mark c) ⟨c, rest, rfl, mark⟩
            have later := ih rest.length (size ▸ Nat.lt_succ_self _) (p.advance [c]) rest rfl
            calc ofStretches p (Stretch.all (c :: rest))
                = ofStretches p (.single c :: Stretch.all rest) := congrArg _ stretches
              _ = ofLexemes (p.advance [c]) (Lexeme.all rest) := later
              _ = ofLexemes p (.mark c :: Lexeme.all rest) := rfl
              _ = ofLexemes p (Lexeme.all (c :: rest)) := congrArg _ lexemes.symm
          · have nonempty : Stretch.codeRun (c :: rest) ≠ [] := by
              rw [Stretch.codeRun_cons plain]
              exact List.cons_ne_nil c _
            have whole := Stretch.codeRun_text (c :: rest)
            have shorter := Stretch.length_left nonempty whole.symm
            have later := ih _ (size ▸ shorter) (p.advance (Stretch.codeRun (c :: rest))) _ rfl
            have stretches := Stretch.all_of_first? (.code _) nonempty ((congrArg _ whole).trans first)
            calc ofStretches p (Stretch.all (c :: rest))
                = ofStretches p (.code (Stretch.codeRun (c :: rest)) ::
                    Stretch.all ((c :: rest).drop (Stretch.codeRun (c :: rest)).length)) :=
                  congrArg _ ((congrArg _ whole.symm).trans stretches)
              _ = ofLexemes p (Lexeme.all (c :: rest)) := later.trans (ofLexemes_codeRun p (c :: rest)).symm

/-- The comments of a text are its comment lexemes. -/
theorem scan_eq (text : List Char) : scan text = ofLexemes .start (Lexeme.all text) := ofStretches_all .start text

theorem mem_scan {text : List Char} {c : Comment} :
    c ∈ scan text ↔ ∃ before lexeme after, Lexeme.all text = before ++ lexeme :: after ∧
      ofLexeme? (Position.start.advance (Lexeme.texts before)) lexeme = some c := by
  rw [scan_eq]
  exact mem_ofLexemes

theorem lines_eq (text : List Char) : lines text = linesFrom .start (Lexeme.all text) := by
  rw [lines, scan_eq]
  rfl

end Comment

end Exemplar
