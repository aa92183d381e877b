import Exemplar.Proofs.BlockComments

/-!
# The spans of comments

Every text, also one that is no program, has its comments: they stand one behind another, and the slice of a span is
the comment with its marks.
-/

namespace Exemplar

/-- What a closed block comment holds does not close it. -/
theorem Lexeme.closeBlock_not_infix {text body after : List Char} (closed : closeBlock text = some (body, after)) :
    ¬ ['|', '#'] <:+: body := by
  fun_induction closeBlock text generalizing body after with
  | case1 => cases closed
  | case2 rest => cases closed; simp
  | case3 c rest notClosing ih =>
      obtain ⟨⟨inner, tail⟩, found, same⟩ := Option.map_eq_some_iff.mp closed
      cases same
      intro inside
      rcases List.infix_cons_iff.mp inside with begins | later
      · obtain ⟨bar, hash⟩ := List.cons_prefix_cons.mp begins
        obtain ⟨more, starts⟩ := hash
        rw [← starts] at found
        exact notClosing _ bar.symm (closeBlock_text found)
      · exact ih found later

namespace Comment

variable {text : List Char} {c : Comment}

def lexeme (c : Comment) : Lexeme := if c.isBlock then .block c.text else .line c.text

theorem lexeme_of_ofLexeme {p : Position} {lexeme : Lexeme} (comment : ofLexeme? p lexeme = some c) :
    c.lexeme = lexeme ∧ c.span = ⟨p, p.advance lexeme.text⟩ := by
  cases lexeme <;> cases comment <;> exact ⟨rfl, rfl⟩

theorem map_lexeme (p : Position) (lexemes : List Lexeme) :
    (ofLexemes p lexemes).map lexeme = lexemes.filter (·.isComment) := by
  induction lexemes generalizing p with
  | nil => rfl
  | cons first rest ih =>
      rw [ofLexemes_cons, List.map_append, ih]
      cases first <;> rfl

theorem ofLexemes_ordered (p : Position) (lexemes : List Lexeme) :
    (ofLexemes p lexemes).Pairwise fun c d => c.span.stop ≤ d.span.start := by
  induction lexemes generalizing p with
  | nil => exact .nil
  | cons first rest ih =>
      rw [ofLexemes_cons]
      refine List.pairwise_append.mpr ⟨Option.pairwise_toList, ih _, fun c here d later => ?_⟩
      rw [(lexeme_of_ofLexeme (Option.mem_toList.mp here)).2]
      exact (start_between later).1

/-- Where a comment stands among the lexemes of its text. -/
theorem exists_lexeme (member : c ∈ scan text) :
    ∃ before after, Lexeme.all text = before ++ c.lexeme :: after ∧ c.lexeme.Opens (Lexeme.texts after) ∧
      c.span = ⟨Position.start.advance (Lexeme.texts before),
        Position.start.advance (Lexeme.texts before ++ c.lexeme.text)⟩ := by
  obtain ⟨before, lexeme, after, whole, comment⟩ := mem_scan.mp member
  obtain ⟨rfl, span⟩ := lexeme_of_ofLexeme comment
  have leads := Lexeme.leads_all text
  rw [whole] at leads
  have opens := (Lexeme.leads_append.mp leads).2.1
  rw [List.append_nil] at opens
  exact ⟨before, after, whole, opens, by rw [span, Position.advance_append]⟩

/-- The text around a comment. -/
theorem slices_of_mem (fits : Position.Fits text) (member : c ∈ scan text) :
    Position.slice text c.span.start c.span.stop = c.lexeme.text ∧
      c.lexeme.Opens (Position.slice text c.span.stop .fileEnd) := by
  obtain ⟨before, after, whole, opens, span⟩ := exists_lexeme member
  have cut : text = Lexeme.texts before ++ (c.lexeme.text ++ Lexeme.texts after) := by
    rw [← Lexeme.texts_cons, ← Lexeme.texts_append, ← whole, Lexeme.texts_all]
  have behind : text = (Lexeme.texts before ++ c.lexeme.text) ++ Lexeme.texts after := by simp [cut]
  rw [span]
  constructor
  · rw [cut] at fits ⊢
    exact Position.slice_advance fits
  · rw [behind] at fits ⊢
    rw [Position.slice_fileEnd fits]
    exact opens

end Comment

end Exemplar
