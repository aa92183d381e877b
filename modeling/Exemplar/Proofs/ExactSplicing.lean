import Exemplar.Proofs.BlockComments
import Exemplar.Proofs.CommentGrammar
import Exemplar.Proofs.LinePlaces

/-!
# Exact splicing

The examples of line comments stand one behind another, each on lines that all carry a line comment. A text is its
parts between the examples with their regions in between, and instrumentation puts their code in place of the regions.
-/

namespace Exemplar

/-- The texts `kept` with the given pieces in between. -/
def Text.weave : (kept pieces : List (List Char)) → List Char
  | first :: kept, piece :: pieces => first ++ (piece ++ weave kept pieces)
  | kept, _ => kept.flatten

namespace Example

/-- Examples that stand one behind another from `p` on. -/
def Ordered (p : Position) : List Example → Prop
  | [] => True
  | e :: rest => p ≤ e.input.span.start ∧ e.input.span.start < e.stop ∧ Ordered e.stop rest

/-- The part of a text that an example takes. -/
def region (text : List Char) (e : Example) : List Char := Position.slice text e.input.span.start e.stop

/-- The parts of a text before, between and behind examples, from `p` on. -/
def gaps (text : List Char) (p : Position) : List Example → List (List Char)
  | [] => [Position.slice text p .fileEnd]
  | e :: rest => Position.slice text p e.input.span.start :: gaps text e.stop rest

theorem gaps_length (text : List Char) (p : Position) (examples : List Example) :
    (gaps text p examples).length = examples.length + 1 := by
  induction examples generalizing p with
  | nil => rfl
  | cons e rest ih => rw [gaps, List.length_cons, ih, List.length_cons]

theorem Laid.ordered {p : Position} {lexemes : List Lexeme} {examples : List Example} (laid : Laid p lexemes examples) :
    Ordered p examples := by
  induction laid with
  | nil => trivial
  | @cons p before region after e rest isRegion starts stops later ih =>
      obtain ⟨body, opens⟩ := isRegion.opens
      obtain ⟨others, rfl⟩ := List.head?_eq_some_iff.mp opens
      refine ⟨?_, ?_, ?_⟩
      · rw [starts]
        exact Position.le_advance p _
      · rw [starts, stops, Lexeme.texts_append, Position.advance_append]
        exact Position.lt_advance _ (List.cons_ne_nil _ _)
      · rw [stops]
        exact ih

/-- The parts between the regions and the regions together are the text. -/
theorem Laid.weave_regions {text front : List Char} {p : Position} {lexemes : List Lexeme} {examples : List Example}
    (laid : Laid p lexemes examples) (fits : Position.Fits text) (whole : text = front ++ Lexeme.texts lexemes)
    (place : p = Position.start.advance front) :
    Lexeme.texts lexemes = Text.weave (gaps text p examples) (examples.map (Example.region text)) := by
  induction laid generalizing front with
  | nil =>
      subst whole
      rw [place]
      simp [gaps, Text.weave, Position.slice_fileEnd fits]
  | @cons p before found after e rest isRegion starts stops later ih =>
      have cut : text = (front ++ Lexeme.texts (before ++ found)) ++ Lexeme.texts after := by simp [whole]
      have tail := ih cut (by rw [place, ← Position.advance_append])
      have kept : Position.slice text p e.input.span.start = Lexeme.texts before := by
        have split : text = front ++ (Lexeme.texts before ++ Lexeme.texts (found ++ after)) := by simp [whole]
        rw [starts, place, ← Position.advance_append]
        rw [split] at fits ⊢
        exact Position.slice_advance fits
      have taken : Example.region text e = Lexeme.texts found := by
        have split : text = (front ++ Lexeme.texts before) ++ (Lexeme.texts found ++ Lexeme.texts after) := by
          simp [whole]
        rw [Example.region, starts, stops, place, ← Position.advance_append, ← Position.advance_append, Lexeme.texts_append,
          ← List.append_assoc]
        rw [split] at fits ⊢
        exact Position.slice_advance fits
      rw [gaps, List.map_cons, Text.weave, kept, taken, stops, ← tail]
      simp

theorem spliceFrom_weave (text : List Char) (p : Position) (examples : List Example) :
    Instrument.spliceFrom text p examples = Text.weave (gaps text p examples) (examples.map (Harness.code 0)) := by
  induction examples generalizing p with
  | nil => simp [Instrument.spliceFrom, gaps, Text.weave]
  | cons e rest ih => rw [Instrument.spliceFrom, ih, gaps, List.map_cons, Text.weave]

theorem input_before_output {lead text : List Char} {e : Example} (member : e ∈ inLines lead text) {output : Fragment}
    (isOutput : e.output = some output) : e.input.span.stop < output.span.start := by
  obtain ⟨group, isGroup, found⟩ := List.mem_flatMap.mp member
  obtain ⟨asked, answered, _, _, both, stops, starts, _⟩ := exists_answer found isOutput
  have below := (Comment.lineGroup_ordered isGroup).sublist both
  obtain ⟨c, isComment, _, span⟩ := Comment.mem_lineGroup isGroup (both.subset List.mem_cons_self)
  have same := Comment.line_stop isComment
  rw [← span] at same
  rw [stops, starts]
  refine .inl ?_
  rw [same]
  simpa using below

end Example

theorem mem_of_chain {numbers : List Nat} (chain : numbers.IsChain fun number next => number + 1 = next)
    {first last : Nat} (head : numbers.head? = some first) (final : numbers.getLast? = some last) {number : Nat}
    (low : first ≤ number) (high : number ≤ last) : number ∈ numbers := by
  induction numbers generalizing first with
  | nil => cases head
  | cons n rest ih =>
      obtain rfl : n = first := Option.some.inj head
      cases rest with
      | nil =>
          obtain rfl : n = last := by simpa using final
          simp [Nat.le_antisymm high low]
      | cons next more =>
          rcases Nat.eq_or_lt_of_le low with rfl | above
          · exact List.mem_cons_self
          · have step : n + 1 = next := chain.rel
            refine List.mem_cons_of_mem _ (ih chain.tail rfl ?_ ?_)
            · simpa using final
            · omega

/-- Every line of a region carries one of its comments. -/
theorem Comment.IsRegion.covers {p : Position} {region : List Lexeme} {after : List Char} (isRegion : IsRegion p region)
    (leads : Lexeme.Leads after region) {number : Nat} (low : p.line ≤ number)
    (high : number ≤ (p.advance (Lexeme.texts region)).line) :
    ∃ c ∈ linesFrom p region, c.span.start.line = number := by
  have head : ((linesFrom p region).map (·.span.start.line)).head? = some p.line := by
    obtain ⟨body, opens⟩ := isRegion.opens
    obtain ⟨others, rfl⟩ := List.head?_eq_some_iff.mp opens
    rw [linesFrom_line]
    rfl
  have final : ((linesFrom p region).map (·.span.start.line)).getLast? =
      some (p.advance (Lexeme.texts region)).line := by
    obtain ⟨body, closes⟩ := isRegion.closes
    obtain ⟨front, rfl⟩ := List.getLast?_eq_some_iff.mp closes
    have unbroken := Lexeme.line_unbroken (Lexeme.leads_append.mp leads).2.1
    rw [linesFrom_append, linesFrom_line, Lexeme.texts_append, Position.advance_append, Lexeme.texts_cons,
      Lexeme.texts_nil, List.append_nil, Position.advance_unbroken _ unbroken]
    simp [linesFrom, ofLexemes]
  exact List.mem_map.mp (mem_of_chain isRegion.chain head final low high)

namespace Example

theorem covered {lead text : List Char} {e : Example} (member : e ∈ inLines lead text) {number : Nat}
    (low : e.input.span.start.line ≤ number) (high : number ≤ e.stop.line) :
    ∃ c ∈ Comment.lines text, c.span.start.line = number := by
  obtain ⟨before, region, after, whole, isRegion, starts, stops⟩ := (inLines_laid lead text).region member
  have leads := Lexeme.leads_all text
  rw [whole] at leads
  rw [starts] at low
  rw [stops, Lexeme.texts_append, Position.advance_append] at high
  obtain ⟨c, inside, line⟩ :=
    isRegion.covers (Lexeme.leads_append.mp (Lexeme.leads_append.mp leads).2).1 low high
  refine ⟨c, ?_, line⟩
  rw [Comment.lines_eq, whole, Comment.linesFrom_append, Comment.linesFrom_append]
  simp [inside]

end Example

/-- The examples of line comments stand one behind another, the input of each before its expected result, on lines that
all carry a comment. The text is its gaps with the regions of the examples in between, and the instrumented text the
same gaps with their code. -/
theorem Instrument.spliceLines_exact (lead text : List Char) (fits : Position.Fits text) :
    Example.Ordered .start (Example.inLines lead text) ∧
      (∀ e ∈ Example.inLines lead text, ∀ output ∈ e.output, e.input.span.stop < output.span.start) ∧
      (∀ e ∈ Example.inLines lead text, ∀ number, e.input.span.start.line ≤ number → number ≤ e.stop.line →
        ∃ c ∈ Comment.lines text, c.span.start.line = number) ∧
      (Example.gaps text .start (Example.inLines lead text)).length = (Example.inLines lead text).length + 1 ∧
      text = Text.weave (Example.gaps text .start (Example.inLines lead text))
        ((Example.inLines lead text).map (Example.region text)) ∧
      spliceLines text (Example.inLines lead text) =
        Text.weave (Example.gaps text .start (Example.inLines lead text))
          ((Example.inLines lead text).map (Harness.code 0)) := by
  have laid := Example.inLines_laid lead text
  have whole : text = [] ++ Lexeme.texts (Lexeme.all text) := by simp
  have woven := laid.weave_regions fits whole rfl
  rw [Lexeme.texts_all] at woven
  exact ⟨laid.ordered, fun e member output isOutput => Example.input_before_output member isOutput,
    fun e member number => Example.covered member, Example.gaps_length _ _ _, woven, Example.spliceFrom_weave _ _ _⟩

/-- Two examples, the first with a continued input and code before its first comment. -/
theorem Instrument.spliceLines_exact_two :
    ∃ text : List Char, text = "(f) ; > (+ 1\n; .. 2)\n; 3\n(g) ; > 2\n".toList ∧
      Example.gaps text .start (Example.inLines [] text) = ["(f) ".toList, "\n(g) ".toList, "\n".toList] ∧
      (Example.inLines [] text).map (Example.region text) = ["; > (+ 1\n; .. 2)\n; 3".toList, "; > 2".toList] ∧
      Example.Ordered .start (Example.inLines [] text) ∧
      spliceLines text (Example.inLines [] text) =
        Text.weave (Example.gaps text .start (Example.inLines [] text))
          ((Example.inLines [] text).map (Harness.code 0)) :=
  have exact' := spliceLines_exact [] "(f) ; > (+ 1\n; .. 2)\n; 3\n(g) ; > 2\n".toList (by decide)
  ⟨_, rfl, by decide +kernel, by decide +kernel, exact'.1, exact'.2.2.2.2.2⟩

end Exemplar
