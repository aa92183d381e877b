import Exemplar.Comment
import Exemplar.Proofs.Lexing

/-!
# Places in a text

The place behind a beginning of a text leads back to that beginning, so the slice between two places is what stands
between them. The comments of a text are its comment lexemes at their places.
-/

namespace Exemplar

namespace Position

@[simp] theorem advance_nil (p : Position) : p.advance [] = p := rfl

theorem advance_append (p : Position) (left right : List Char) :
    p.advance (left ++ right) = (p.advance left).advance right := List.foldl_append

theorem advance_cons (p : Position) (c : Char) (rest : List Char) :
    p.advance (c :: rest) = (p.after c).advance rest := rfl

theorem after_break (p : Position) : p.after '\n' = ⟨p.line + 1, 0⟩ := rfl

theorem after_other (p : Position) {c : Char} (other : c ≠ '\n') : p.after c = ⟨p.line, p.column + 1⟩ :=
  if_neg other

theorem line_le_advance (p : Position) (text : List Char) : p.line ≤ (p.advance text).line := by
  induction text generalizing p with
  | nil => exact Nat.le_refl _
  | cons c rest ih =>
      have step : p.line ≤ (p.after c).line := by unfold after; split <;> simp
      exact Nat.le_trans step (ih (p.after c))

theorem column_advance_le (p : Position) (text : List Char) :
    (p.advance text).column ≤ p.column + text.length := by
  induction text generalizing p with
  | nil => exact Nat.le_refl _
  | cons c rest ih =>
      have step : (p.after c).column ≤ p.column + 1 := by unfold after; split <;> simp
      have tail := ih (p.after c)
      rw [advance_cons, List.length_cons]
      omega

theorem column_advance {p : Position} {text : List Char} (same : (p.advance text).line = p.line) :
    (p.advance text).column = p.column + text.length := by
  induction text generalizing p with
  | nil => rfl
  | cons c rest ih =>
      rw [advance_cons] at same ⊢
      have later := line_le_advance (p.after c) rest
      have sameLine : (p.after c).line = p.line := by
        have step : p.line ≤ (p.after c).line := by unfold after; split <;> simp
        omega
      rw [ih (same.trans sameLine.symm)]
      have column : (p.after c).column = p.column + 1 := by
        unfold after at sameLine ⊢
        split <;> simp_all
      rw [column, List.length_cons]
      omega

theorem indexAfter_advance (p : Position) (before after : List Char) :
    indexAfter ((p.advance before).line - p.line)
      (if (p.advance before).line = p.line then (p.advance before).column - p.column
        else (p.advance before).column) (before ++ after) = before.length := by
  induction before generalizing p with
  | nil => cases after <;> simp [indexAfter]
  | cons c rest ih =>
      have tail := ih (p.after c)
      have later := line_le_advance (p.after c) rest
      rw [List.cons_append, List.length_cons, advance_cons]
      by_cases lineBreak : c = '\n'
      · subst lineBreak
        rw [after_break] at tail later ⊢
        obtain ⟨breaks, more⟩ := Nat.exists_eq_add_of_le later
        simp only [Nat.sub_zero, ite_self] at tail
        have count : ((Position.mk (p.line + 1) 0).advance rest).line - p.line =
            ((Position.mk (p.line + 1) 0).advance rest).line - (p.line + 1) + 1 := by simp at more; omega
        rw [count, if_neg (by simp at more; omega), indexAfter, if_pos rfl, tail, Nat.add_comm]
      · rw [after_other p lineBreak] at tail later ⊢
        by_cases sameLine : ((Position.mk p.line (p.column + 1)).advance rest).line = p.line
        · have column := column_advance sameLine
          have ahead : p.column + 1 + rest.length - p.column = rest.length + 1 := by omega
          simp only [sameLine, Nat.sub_self, if_true, column] at tail ⊢
          rw [ahead, indexAfter, if_neg lineBreak]
          have same : p.column + 1 + rest.length - (p.column + 1) = rest.length := by omega
          rw [same] at tail
          omega
        · simp only [if_neg sameLine] at tail ⊢
          obtain ⟨breaks, more⟩ : ∃ breaks,
              ((Position.mk p.line (p.column + 1)).advance rest).line - p.line = breaks + 1 :=
            Nat.exists_eq_succ_of_ne_zero (by simp at later; omega)
          rw [more] at tail ⊢
          rw [indexAfter, if_neg lineBreak, tail, Nat.add_comm]

/-- A text that is short enough for every place in it to differ from the one that stands for its end. Texts that
fit into an address space of 64 bits are. -/
def Fits (text : List Char) : Prop := text.length < bound

instance (text : List Char) : Decidable (Fits text) := Nat.decLt _ _

theorem Fits.beginning {before after : List Char} (fits : Fits (before ++ after)) : Fits before := by
  unfold Fits at *
  rw [List.length_append] at fits
  omega

theorem advance_ne_fileEnd {before : List Char} (fits : Fits before) : start.advance before ≠ fileEnd := by
  intro same
  have column := column_advance_le start before
  rw [same] at column
  unfold Fits at fits
  simp only [start, fileEnd, Nat.zero_add] at column
  omega

theorem index_advance {before after : List Char} (fits : Fits (before ++ after)) :
    index (before ++ after) (start.advance before) = before.length := by
  have counted := indexAfter_advance start before after
  have positive : 1 ≤ (start.advance before).line := line_le_advance start before
  have column : (if (start.advance before).line = start.line then (start.advance before).column - start.column
      else (start.advance before).column) = (start.advance before).column := by
    split <;> rfl
  rw [column] at counted
  rw [index, if_neg (by omega),
    if_neg (advance_ne_fileEnd fits.beginning)]
  exact counted

@[simp] theorem index_fileEnd (text : List Char) : index text fileEnd = text.length := by
  simp [index, fileEnd, bound]

theorem slice_advance {before middle after : List Char} (fits : Fits (before ++ (middle ++ after))) :
    slice (before ++ (middle ++ after)) (start.advance before) (start.advance (before ++ middle)) = middle := by
  have low := index_advance fits
  have fits' : Fits ((before ++ middle) ++ after) := by simpa using fits
  have high := index_advance fits'
  rw [List.append_assoc] at high
  unfold slice
  split
  · next same =>
      rw [same, high] at low
      have empty : middle.length = 0 := by rw [List.length_append] at low; omega
      exact (List.eq_nil_of_length_eq_zero empty).symm
  · rw [low, high, ← List.append_assoc, List.take_left, List.drop_left]

theorem slice_fileEnd {before after : List Char} (fits : Fits (before ++ after)) :
    slice (before ++ after) (start.advance before) fileEnd = after := by
  rw [slice, if_neg (advance_ne_fileEnd fits.beginning), index_advance fits, index_fileEnd, List.take_length,
    List.drop_left]

theorem slice_whole (text : List Char) : slice text start fileEnd = text := by
  have first : index text start = 0 := by cases text <;> rfl
  rw [slice, if_neg (by decide), first, index_fileEnd, List.take_length, List.drop_zero]

theorem byteOffset_advance {before after : List Char} (fits : Fits (before ++ after)) :
    byteOffset (before ++ after) (start.advance before) = Text.byteLength before := by
  rw [byteOffset, index_advance fits, List.take_left]

end Position

/-! ## Comments as lexemes -/

namespace Comment

/-- The comment that a lexeme at `p` is. -/
def ofLexeme? (p : Position) (lexeme : Lexeme) : Option Comment :=
  match lexeme with
  | .block body => some ⟨true, body, ⟨p, p.advance lexeme.text⟩⟩
  | .line body => some ⟨false, body, ⟨p, p.advance lexeme.text⟩⟩
  | _ => none

/-- The comments among lexemes that start at `p`. -/
def ofLexemes (p : Position) : List Lexeme → List Comment
  | [] => []
  | lexeme :: rest =>
      let q := p.advance lexeme.text
      match lexeme with
      | .block body => ⟨true, body, ⟨p, q⟩⟩ :: ofLexemes q rest
      | .line body => ⟨false, body, ⟨p, q⟩⟩ :: ofLexemes q rest
      | _ => ofLexemes q rest

theorem ofLexemes_cons (p : Position) (lexeme : Lexeme) (rest : List Lexeme) :
    ofLexemes p (lexeme :: rest) =
      (ofLexeme? p lexeme).toList ++ ofLexemes (p.advance lexeme.text) rest := by
  cases lexeme <;> rfl

theorem ofLexemes_append (p : Position) (left right : List Lexeme) :
    ofLexemes p (left ++ right) =
      ofLexemes p left ++ ofLexemes (p.advance (Lexeme.texts left)) right := by
  induction left generalizing p with
  | nil => rfl
  | cons lexeme rest ih =>
      rw [List.cons_append, ofLexemes_cons, ofLexemes_cons, ih, Lexeme.texts_cons, Position.advance_append,
        List.append_assoc]

theorem mem_ofLexemes {p : Position} {lexemes : List Lexeme} {c : Comment} :
    c ∈ ofLexemes p lexemes ↔ ∃ before lexeme after, lexemes = before ++ lexeme :: after ∧
      ofLexeme? (p.advance (Lexeme.texts before)) lexeme = some c := by
  constructor
  · intro member
    induction lexemes generalizing p with
    | nil => cases member
    | cons lexeme rest ih =>
        rw [ofLexemes_cons, List.mem_append, Option.mem_toList] at member
        rcases member with here | later
        · exact ⟨[], lexeme, rest, rfl, here⟩
        · obtain ⟨before, found, after, same, comment⟩ := ih later
          refine ⟨lexeme :: before, found, after, by rw [same]; rfl, ?_⟩
          rw [Lexeme.texts_cons, Position.advance_append]
          exact comment
  · rintro ⟨before, lexeme, after, rfl, comment⟩
    rw [ofLexemes_append, ofLexemes_cons, comment]
    simp

/-- The line comments among lexemes that start at `p`. -/
def linesFrom (p : Position) (lexemes : List Lexeme) : List Comment :=
  (ofLexemes p lexemes).filter (!·.isBlock)

theorem linesFrom_append (p : Position) (left right : List Lexeme) :
    linesFrom p (left ++ right) = linesFrom p left ++ linesFrom (p.advance (Lexeme.texts left)) right := by
  rw [linesFrom, ofLexemes_append, List.filter_append]
  rfl

theorem linesFrom_line (p : Position) (body : List Char) (rest : List Lexeme) :
    linesFrom p (.line body :: rest) =
      ⟨false, body, ⟨p, p.advance (Lexeme.line body).text⟩⟩ ::
        linesFrom (p.advance (Lexeme.line body).text) rest := by
  simp [linesFrom, ofLexemes]

/-- A cut of the line comments at one of them is a cut of the lexemes there. -/
theorem linesFrom_split {p : Position} {lexemes : List Lexeme} {before after : List Comment} {c : Comment}
    (cut : linesFrom p lexemes = before ++ c :: after) :
    ∃ left body right, lexemes = left ++ .line body :: right ∧ linesFrom p left = before ∧
      c = ⟨false, body, ⟨p.advance (Lexeme.texts left), p.advance (Lexeme.texts (left ++ [.line body]))⟩⟩ ∧
      linesFrom (p.advance (Lexeme.texts (left ++ [.line body]))) right = after := by
  induction lexemes generalizing p before with
  | nil => cases before <;> simp [linesFrom, ofLexemes] at cut
  | cons lexeme rest ih =>
      have skip (plain : linesFrom p [lexeme] = []) :
          ∃ left body right, lexeme :: rest = left ++ .line body :: right ∧ linesFrom p left = before ∧
            c = ⟨false, body, ⟨p.advance (Lexeme.texts left),
              p.advance (Lexeme.texts (left ++ [.line body]))⟩⟩ ∧
            linesFrom (p.advance (Lexeme.texts (left ++ [.line body]))) right = after := by
        rw [← List.singleton_append, linesFrom_append, plain, List.nil_append] at cut
        obtain ⟨left, body, right, same, first, comment, last⟩ := ih cut
        refine ⟨lexeme :: left, body, right, by rw [same]; rfl, ?_, ?_, ?_⟩
        · rw [← List.singleton_append, linesFrom_append, plain, first]; rfl
        · simpa [Position.advance_append] using comment
        · simpa [Position.advance_append] using last
      cases lexeme with
      | line body =>
          rw [linesFrom_line] at cut
          cases before with
          | nil =>
              obtain ⟨here, later⟩ := List.cons.inj cut
              exact ⟨[], body, rest, rfl, rfl, by simpa using here.symm, by simpa using later⟩
          | cons first more =>
              obtain ⟨here, later⟩ := List.cons.inj cut
              obtain ⟨left, inner, right, same, front, comment, last⟩ := ih later
              refine ⟨.line body :: left, inner, right, by rw [same]; rfl, ?_, ?_, ?_⟩
              · rw [linesFrom_line, front, here]
              · simpa [Position.advance_append] using comment
              · simpa [Position.advance_append] using last
      | _ => exact skip (by simp [linesFrom, ofLexemes])

end Comment

end Exemplar
