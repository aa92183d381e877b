import Exemplar.Proofs.ExampleCode
import Exemplar.Proofs.Regions

/-!
# Lexemes of an instrumented text

When neither the text nor the code of its examples holds a stray mark, the lexemes of the instrumented text are those
of the text with the lexemes of each example's code in the place of its region.
-/

namespace Exemplar

namespace Lexeme

theorem Leads.last {lexemes : List Lexeme} {after : List Char} (leads : Leads after lexemes) :
    ∀ lexeme ∈ lexemes.getLast?, lexeme.EndsBefore after := by
  intro lexeme member
  obtain ⟨front, rfl⟩ := List.getLast?_eq_some_iff.mp member
  have final := (leads_append.mp leads).2.1
  rw [texts_nil, List.nil_append] at final
  exact final.endsBefore

/-- What ends on a line ends there before any text that begins with no character of a word. -/
theorem EndsBefore.change {lexeme : Lexeme} {after other : List Char} {c d : Char}
    (ends : lexeme.EndsBefore (d :: after)) (noBreak : isLineBreak d = false) (noSymbol : isSymbolChar c = false) :
    lexeme.EndsBefore (c :: other) := by
  cases lexeme with
  | line body => exact absurd (ends d rfl) (Bool.eq_false_iff.mp noBreak)
  | word characters =>
      intro d member
      obtain rfl : c = d := Option.some.inj member
      exact noSymbol
  | _ => trivial

end Lexeme

theorem Comment.IsRegion.texts_eq {p : Position} {region : List Lexeme} (isRegion : IsRegion p region)
    (after : List Char) :
    ∃ rest, Lexeme.texts region ++ after = ';' :: rest := by
  obtain ⟨body, head⟩ := isRegion.opens
  obtain ⟨tail, rfl⟩ := List.head?_eq_some_iff.mp head
  exact ⟨_, rfl⟩

theorem Comment.IsRegion.break_behind {p : Position} {region : List Lexeme} {after : List Char}
    (isRegion : IsRegion p region) (leads : Lexeme.Leads after region) :
    ∀ c ∈ after.head?, Lexeme.isLineBreak c = true := by
  obtain ⟨body, final⟩ := isRegion.closes
  exact leads.last (.line body) final

namespace Example

theorem takeWhile_cut {α : Type} {holds : α → Bool} {first later : List α} (before : ∀ item ∈ first, holds item = true)
    (notBefore : ∀ item ∈ later, holds item = false) : (first ++ later).takeWhile holds = first := by
  rw [List.takeWhile_append_of_pos before]
  cases later with
  | nil => simp
  | cons item rest => simp [notBefore item (by simp)]

theorem dropWhile_cut {α : Type} {holds : α → Bool} {first later : List α} (before : ∀ item ∈ first, holds item = true)
    (notBefore : ∀ item ∈ later, holds item = false) : (first ++ later).dropWhile holds = later := by
  rw [List.dropWhile_append_of_pos before]
  cases later with
  | nil => simp
  | cons item rest => simp [notBefore item (by simp)]

/-- The lexemes `after` instrumentation: each example's code stands in the place of its region. -/
inductive Spliced : Position → List Lexeme → List Example → List Lexeme → Prop where
  | nil {p : Position} {lexemes : List Lexeme} : Spliced p lexemes [] lexemes
  | cons {p : Position} {before region after result : List Lexeme} {e : Example} {rest : List Example}
      (isRegion : Comment.IsRegion (p.advance (Lexeme.texts before)) region)
      (starts : e.input.span.start = p.advance (Lexeme.texts before))
      (stops : e.stop = p.advance (Lexeme.texts (before ++ region)))
      (later : Spliced (p.advance (Lexeme.texts (before ++ region))) after rest result) :
      Spliced p (before ++ (region ++ after)) (e :: rest) (before ++ (Lexeme.all (Harness.code 0 e) ++ result))

theorem Laid.spliced {p : Position} {lexemes : List Lexeme} {examples : List Example}
    (laid : Laid p lexemes examples) : ∃ result, Spliced p lexemes examples result := by
  induction laid with
  | nil => exact ⟨_, .nil⟩
  | cons isRegion starts stops _ ih =>
      obtain ⟨result, later⟩ := ih
      exact ⟨_, .cons isRegion starts stops later⟩

variable {p : Position} {lexemes result : List Lexeme} {examples : List Example}

theorem Spliced.texts (spliced : Spliced p lexemes examples result) {text front : List Char}
    (fits : Position.Fits text) (whole : text = front ++ Lexeme.texts lexemes)
    (place : p = Position.start.advance front) :
    Instrument.spliceFrom text p examples = Lexeme.texts result := by
  induction spliced generalizing front with
  | nil => rw [place]; exact Instrument.spliceFrom_nil fits whole
  | @cons p before region after result e rest isRegion starts stops later ih =>
      have cut : text = (front ++ Lexeme.texts (before ++ region)) ++ Lexeme.texts after := by simp [whole]
      have tail := ih cut (by rw [place, ← Position.advance_append])
      subst place
      rw [Instrument.spliceFrom_cons fits whole starts, stops, tail]
      simp

/-- The text after instrumentation begins with a line break if the text before it does. -/
theorem Spliced.break_first (spliced : Spliced p lexemes examples result) (leads : Lexeme.Leads [] lexemes)
    (first : ∀ c ∈ (Lexeme.texts lexemes).head?, Lexeme.isLineBreak c = true) :
    ∀ c ∈ (Lexeme.texts result).head?, Lexeme.isLineBreak c = true := by
  cases spliced with
  | nil => exact first
  | @cons _ before region after result e rest isRegion starts stops later =>
      cases before with
      | nil =>
          obtain ⟨tail, same⟩ := isRegion.texts_eq (Lexeme.texts after)
          rw [List.nil_append, Lexeme.texts_append, same] at first
          exact absurd (first ';' rfl) (by decide)
      | cons lexeme more =>
          obtain ⟨c, tail, same⟩ := List.exists_cons_of_ne_nil leads.1.text_ne_nil
          intro d member
          refine first d ?_
          rw [List.cons_append, Lexeme.texts_cons, same] at member ⊢
          exact member

theorem Spliced.leads (spliced : Spliced p lexemes examples result) (leads : Lexeme.Leads [] lexemes)
    (closed : ∀ lexeme ∈ lexemes, lexeme.isStray = false)
    (closedCode : ∀ e ∈ examples, ∀ lexeme ∈ Lexeme.all (Harness.code 0 e), lexeme.isStray = false) :
    Lexeme.Leads [] result := by
  induction spliced with
  | nil => exact leads
  | @cons p before region after result e rest isRegion starts stops later ih =>
      obtain ⟨leadsBefore, leadsRest⟩ := Lexeme.leads_append.mp leads
      obtain ⟨leadsRegion, leadsAfter⟩ := Lexeme.leads_append.mp leadsRest
      rw [List.append_nil] at leadsBefore leadsRegion
      have leadsResult := ih leadsAfter (fun l member => closed l (by simp [member]))
        (fun e' member => closedCode e' (by simp [member]))
      have breaks := later.break_first leadsAfter (isRegion.break_behind leadsRegion)
      refine Lexeme.leads_append.mpr ⟨?_, Lexeme.leads_append.mpr ⟨?_, leadsResult⟩⟩
      · refine leadsBefore.change (fun l member => closed l (by simp [member])) fun l member => ?_
        have ends := leadsBefore.last l member
        obtain ⟨tail, same⟩ := isRegion.texts_eq (Lexeme.texts after)
        obtain ⟨c, others, code, noSymbol⟩ := Harness.code_head e
        rw [Lexeme.texts_append, same] at ends
        rw [Lexeme.texts_append, Lexeme.texts_all, code]
        exact ends.change (by decide) noSymbol
      · refine (Lexeme.leads_all (Harness.code 0 e)).change (closedCode e (by simp)) fun l _ => ?_
        rw [List.append_nil]
        exact l.endsBefore_of_break breaks

theorem spliceLines_lexemes (lead text : List Char) (fits : Position.Fits text)
    (closed : ∀ lexeme ∈ Lexeme.all text, lexeme.isStray = false)
    (closedCode : ∀ e ∈ inLines lead text, ∀ lexeme ∈ Lexeme.all (Harness.code 0 e), lexeme.isStray = false) :
    ∃ result, Spliced .start (Lexeme.all text) (inLines lead text) result ∧
      Lexeme.all (Instrument.spliceLines text (inLines lead text)) = result := by
  obtain ⟨result, spliced⟩ := (inLines_laid lead text).spliced
  refine ⟨result, spliced, ?_⟩
  have whole : text = [] ++ Lexeme.texts (Lexeme.all text) := by simp
  have same := spliced.texts fits whole rfl
  have lexed := Lexeme.all_of_leads (spliced.leads (Lexeme.leads_all text) closed closedCode)
  rw [Instrument.spliceLines, same]
  simpa using lexed

end Example

end Exemplar
