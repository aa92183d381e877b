import Exemplar.Proofs.Stretches
import Exemplar.Reader

/-!
# Code, comments and blanks

A character of a text is code when it is neither blank nor in a comment. A stretch of lexemes holds no code exactly
when each of them is a comment or a blank.
-/

namespace Exemplar

namespace Lexeme

def isComment : Lexeme → Bool
  | block _ | line _ => true
  | _ => false

/-- Whether a lexeme means nothing to a program: a comment or a blank. -/
def isTrivia : Lexeme → Bool
  | block _ | line _ => true
  | mark c => Reader.isSpace c
  | _ => false

/-- `lexeme` takes the character number `i` of the lexemes in a row. -/
def Takes (lexemes : List Lexeme) (i : Nat) (lexeme : Lexeme) : Prop :=
  ∃ before after, lexemes = before ++ lexeme :: after ∧
    (texts before).length ≤ i ∧ i < (texts before).length + lexeme.text.length

/-- Some lexeme of a row holds the place `i`, in whatever unit the characters are counted. -/
theorem exists_cut {measure : List Char → Nat}
    (append : ∀ left right, measure (left ++ right) = measure left + measure right)
    {lexemes : List Lexeme} {i : Nat} (bound : i < measure (texts lexemes)) :
    ∃ before lexeme after, lexemes = before ++ lexeme :: after ∧ measure (texts before) ≤ i ∧
      i < measure (texts (before ++ [lexeme])) := by
  have empty : measure [] = 0 := by
    have twice := append [] []
    rw [List.nil_append] at twice
    omega
  induction lexemes generalizing i with
  | nil => rw [texts_nil, empty] at bound; omega
  | cons lexeme rest ih =>
      by_cases here : i < measure lexeme.text
      · exact ⟨[], lexeme, rest, rfl, by rw [texts_nil, empty]; exact Nat.zero_le i, by simpa using here⟩
      · rw [texts_cons, append] at bound
        obtain ⟨before, found, after, rfl, low, high⟩ := ih (i := i - measure lexeme.text) (by omega)
        refine ⟨lexeme :: before, found, after, rfl, ?_, ?_⟩
        · rw [texts_cons, append]; omega
        · rw [List.cons_append, texts_cons, append]; omega

theorem exists_takes {lexemes : List Lexeme} {i : Nat} (bound : i < (texts lexemes).length) :
    ∃ lexeme, Takes lexemes i lexeme := by
  obtain ⟨before, lexeme, after, whole, low, high⟩ := exists_cut (fun _ _ => List.length_append) bound
  exact ⟨lexeme, before, after, whole, low, by simpa using high⟩

/-- Two cuts of a row are at one lexeme, or one of them is before the other. -/
theorem cut_cases {before after before' after' : List Lexeme} {lexeme other : Lexeme}
    (same : before ++ lexeme :: after = before' ++ other :: after') :
    lexeme = other ∨ (∃ middle, before' = before ++ lexeme :: middle) ∨
      ∃ middle, before = before' ++ other :: middle := by
  rcases List.append_eq_append_iff.mp same with ⟨middle, rfl, tail⟩ | ⟨middle, rfl, tail⟩
  · cases middle with
    | nil => exact .inl (List.cons.inj tail).1
    | cons first more =>
        obtain rfl := (List.cons.inj tail).1
        exact .inr (.inl ⟨more, rfl⟩)
  · cases middle with
    | nil => exact .inl (List.cons.inj tail).1.symm
    | cons first more =>
        obtain rfl := (List.cons.inj tail).1
        exact .inr (.inr ⟨more, rfl⟩)

theorem Takes.unique {lexemes : List Lexeme} {i : Nat} {lexeme other : Lexeme} (takes : Takes lexemes i lexeme)
    (takes' : Takes lexemes i other) : lexeme = other := by
  obtain ⟨before, after, same, low, high⟩ := takes
  obtain ⟨before', after', same', low', high'⟩ := takes'
  rcases cut_cases (same.symm.trans same') with here | ⟨middle, rfl⟩ | ⟨middle, rfl⟩
  · exact here
  · simp only [texts_append, texts_cons, List.length_append] at low'
    omega
  · simp only [texts_append, texts_cons, List.length_append] at low
    omega

theorem Takes.mem_text {lexemes : List Lexeme} {i : Nat} {lexeme : Lexeme} {c : Char}
    (takes : Takes lexemes i lexeme) (at' : (texts lexemes)[i]? = some c) : c ∈ lexeme.text := by
  obtain ⟨before, after, rfl, low, high⟩ := takes
  rw [texts_append, texts_cons, List.getElem?_append_right low, List.getElem?_append_left (by omega)] at at'
  exact List.mem_of_getElem? at'

theorem Opens.head_not_space {lexeme : Lexeme} {after : List Char} (opens : lexeme.Opens after)
    (code : lexeme.isTrivia = false) : ∃ c rest, lexeme.text = c :: rest ∧ Reader.isSpace c = false := by
  cases lexeme with
  | block body => cases code
  | line body => cases code
  | string body => exact ⟨'"', _, rfl, by decide⟩
  | mark c => exact ⟨c, [], rfl, code⟩
  | word characters =>
      obtain ⟨nonempty, symbols, _⟩ := opens_word.mp opens
      obtain ⟨c, rest, rfl⟩ := List.exists_cons_of_ne_nil nonempty
      refine ⟨c, rest, rfl, ?_⟩
      have symbol := symbols c List.mem_cons_self
      cases space : Reader.isSpace c with
      | false => rfl
      | true =>
          simp only [Reader.isSpace, Bool.or_eq_true, beq_iff_eq] at space
          rcases space with ((rfl | rfl) | rfl) | rfl <;> exact absurd symbol (by decide)

end Lexeme

namespace Reader.Reading

theorem step_trivia (reading : Reading) {lexeme : Lexeme} (trivia : lexeme.isTrivia = true) :
    reading.step lexeme = .ok (reading.skip (reading.offset + Text.byteLength lexeme.text)) := by
  cases lexeme with
  | block body => rfl
  | line body => rfl
  | mark c => exact if_pos trivia
  | string body => cases trivia
  | word word => cases trivia

theorem steps_trivia (reading : Reading) {lexemes : List Lexeme}
    (trivia : ∀ lexeme ∈ lexemes, lexeme.isTrivia = true) :
    reading.steps lexemes = .ok (reading.skip (reading.offset + Text.byteLength (Lexeme.texts lexemes))) := by
  induction lexemes generalizing reading with
  | nil => rfl
  | cons lexeme rest ih =>
      have later := ih (reading.skip (reading.offset + Text.byteLength lexeme.text))
        fun other member => trivia other (by simp [member])
      rw [steps, step_trivia reading (trivia lexeme (by simp)), Lexeme.texts_cons, Text.byteLength_append,
        ← Nat.add_assoc]
      exact later

end Reader.Reading

namespace Comment

variable {text : List Char}

/-- The character number `i` stands in a comment. -/
def Inside (text : List Char) (i : Nat) : Prop :=
  ∃ c ∈ scan text, Position.index text c.span.start ≤ i ∧ i < Position.index text c.span.stop

/-- The character number `i` is code: neither blank nor in a comment. -/
def IsCode (text : List Char) (i : Nat) : Prop :=
  (∃ c ∈ text[i]?, Reader.isSpace c = false) ∧ ¬ Inside text i

/-- From `p` to `q` there are only comments and blanks. -/
def OnlyBetween (text : List Char) (p q : Position) : Prop :=
  ∀ i, Position.index text p ≤ i → i < Position.index text q → ¬ IsCode text i

instance (text : List Char) (i : Nat) : Decidable (Inside text i) :=
  inferInstanceAs (Decidable (∃ c ∈ scan text, _))

instance (text : List Char) (i : Nat) : Decidable (IsCode text i) :=
  decidable_of_iff (text[i]?.any (fun c => !Reader.isSpace c) = true ∧ ¬ Inside text i)
    (by simp [IsCode, Option.any_eq_true])

instance (text : List Char) (p q : Position) : Decidable (OnlyBetween text p q) :=
  decidable_of_iff (∀ i < Position.index text q, Position.index text p ≤ i → ¬ IsCode text i)
    ⟨fun only i low high => only i high low, fun only i high low => only i low high⟩

theorem index_lexemes (fits : Position.Fits text) {before after : List Lexeme}
    (whole : Lexeme.all text = before ++ after) :
    Position.index text (Position.start.advance (Lexeme.texts before)) = (Lexeme.texts before).length := by
  have same : text = Lexeme.texts before ++ Lexeme.texts after := by
    rw [← Lexeme.texts_append, ← whole, Lexeme.texts_all]
  rw [same] at fits ⊢
  exact Position.index_advance fits

/-- The comments of a text stand where its comment lexemes do. -/
theorem exists_span_iff {span : LineSpan} :
    (∃ c ∈ scan text, c.span = span) ↔
      ∃ before lexeme after, Lexeme.all text = before ++ lexeme :: after ∧ lexeme.isComment = true ∧
        span = ⟨Position.start.advance (Lexeme.texts before),
          Position.start.advance (Lexeme.texts (before ++ [lexeme]))⟩ := by
  constructor
  · rintro ⟨c, member, rfl⟩
    obtain ⟨before, lexeme, after, whole, comment⟩ := mem_scan.mp member
    refine ⟨before, lexeme, after, whole, ?_⟩
    cases lexeme <;> simp [ofLexeme?] at comment <;> subst comment <;>
      simp [Lexeme.isComment, Position.advance_append]
  · rintro ⟨before, lexeme, after, whole, isComment, rfl⟩
    have found : ∃ c, ofLexeme? (Position.start.advance (Lexeme.texts before)) lexeme = some c ∧
        c.span = ⟨Position.start.advance (Lexeme.texts before),
          Position.start.advance (Lexeme.texts (before ++ [lexeme]))⟩ := by
      cases lexeme <;> simp_all [ofLexeme?, Lexeme.isComment, Position.advance_append]
    obtain ⟨c, comment, span⟩ := found
    exact ⟨c, mem_scan.mpr ⟨before, lexeme, after, whole, comment⟩, span⟩

theorem inside_iff (fits : Position.Fits text) {i : Nat} :
    Inside text i ↔ ∃ lexeme, Lexeme.Takes (Lexeme.all text) i lexeme ∧ lexeme.isComment = true := by
  have stop {before after : List Lexeme} {lexeme : Lexeme} (whole : Lexeme.all text = before ++ lexeme :: after) :
      Position.index text (Position.start.advance (Lexeme.texts (before ++ [lexeme]))) =
        (Lexeme.texts before).length + lexeme.text.length := by
    have behind : Lexeme.all text = (before ++ [lexeme]) ++ after := by simpa using whole
    simpa using index_lexemes fits behind
  constructor
  · rintro ⟨c, member, low, high⟩
    obtain ⟨before, lexeme, after, whole, isComment, span⟩ := exists_span_iff.mp ⟨c, member, rfl⟩
    rw [span, index_lexemes fits whole] at low
    rw [span, stop whole] at high
    exact ⟨lexeme, ⟨before, after, whole, low, high⟩, isComment⟩
  · rintro ⟨lexeme, ⟨before, after, whole, low, high⟩, isComment⟩
    obtain ⟨c, member, span⟩ := exists_span_iff.mpr ⟨before, lexeme, after, whole, isComment, rfl⟩
    refine ⟨c, member, ?_, ?_⟩
    · rw [span, index_lexemes fits whole]; exact low
    · rw [span, stop whole]; exact high

theorem isCode_of_lexeme (fits : Position.Fits text) {before after : List Lexeme} {lexeme : Lexeme}
    (whole : Lexeme.all text = before ++ lexeme :: after) (code : lexeme.isTrivia = false) :
    IsCode text (Lexeme.texts before).length := by
  have leads := Lexeme.leads_all text
  rw [whole] at leads
  obtain ⟨c, rest, begins, noSpace⟩ := (Lexeme.leads_append.mp leads).2.1.head_not_space code
  have same : text = Lexeme.texts before ++ (lexeme.text ++ Lexeme.texts after) := by
    rw [← Lexeme.texts_cons, ← Lexeme.texts_append, ← whole, Lexeme.texts_all]
  refine ⟨⟨c, ?_, noSpace⟩, ?_⟩
  · rw [Option.mem_def, same, List.getElem?_append_right (Nat.le_refl _), Nat.sub_self, begins]
    rfl
  · intro inside
    obtain ⟨other, takes, isComment⟩ := (inside_iff fits).mp inside
    have here : Lexeme.Takes (Lexeme.all text) (Lexeme.texts before).length lexeme :=
      ⟨before, after, whole, Nat.le_refl _, by rw [begins, List.length_cons]; omega⟩
    rw [← here.unique takes] at isComment
    cases lexeme <;> simp_all [Lexeme.isComment, Lexeme.isTrivia]

theorem not_isCode_of_takes (fits : Position.Fits text) {i : Nat} {lexeme : Lexeme}
    (takes : Lexeme.Takes (Lexeme.all text) i lexeme) (trivia : lexeme.isTrivia = true) : ¬ IsCode text i := by
  rintro ⟨⟨c, found, noSpace⟩, outside⟩
  have member := takes.mem_text (c := c) (by rw [Lexeme.texts_all]; exact found)
  cases lexeme with
  | block body => exact outside ((inside_iff fits).mpr ⟨_, takes, rfl⟩)
  | line body => exact outside ((inside_iff fits).mpr ⟨_, takes, rfl⟩)
  | string body => cases trivia
  | word characters => cases trivia
  | mark d =>
      obtain rfl : c = d := by simpa [Lexeme.text] using member
      rw [Lexeme.isTrivia, noSpace] at trivia
      cases trivia

/-- A stretch of lexemes holds no code exactly when all of them are comments and blanks. -/
theorem onlyBetween_iff (fits : Position.Fits text) {before region after : List Lexeme}
    (whole : Lexeme.all text = before ++ (region ++ after)) :
    OnlyBetween text (Position.start.advance (Lexeme.texts before))
        (Position.start.advance (Lexeme.texts (before ++ region))) ↔
      ∀ lexeme ∈ region, lexeme.isTrivia = true := by
  have low := index_lexemes fits whole
  have behind : Lexeme.all text = (before ++ region) ++ after := by rw [whole, List.append_assoc]
  have high := index_lexemes fits behind
  constructor
  · intro only lexeme member
    obtain ⟨left, right, rfl⟩ := List.append_of_mem member
    cases trivia : lexeme.isTrivia with
    | true => rfl
    | false =>
        have cut : Lexeme.all text = (before ++ left) ++ lexeme :: (right ++ after) := by simp [whole]
        refine absurd (isCode_of_lexeme fits cut trivia) (only _ ?_ ?_)
        · rw [low]; simp
        · have leads := Lexeme.leads_all text
          rw [cut] at leads
          have nonempty := List.length_pos_iff.mpr (Lexeme.leads_append.mp leads).2.1.text_ne_nil
          rw [high]
          simp only [Lexeme.texts_append, Lexeme.texts_cons, List.length_append]
          omega
  · intro trivia i above below
    rw [low] at above
    rw [high, Lexeme.texts_append, List.length_append] at below
    have bound : i - (Lexeme.texts before).length < (Lexeme.texts region).length := by omega
    obtain ⟨lexeme, left, right, rfl, first, last⟩ := Lexeme.exists_takes bound
    refine not_isCode_of_takes fits ⟨before ++ left, right ++ after, by simp [whole], ?_, ?_⟩
      (trivia lexeme (by simp))
    all_goals rw [Lexeme.texts_append, List.length_append]; omega

end Comment

end Exemplar
