import Exemplar.Proofs.Splicing
import Exemplar.Proofs.Trivia

/-!
# Code that instrumentation keeps

The region of an example holds code exactly when code stands before one of its later comments, on the line of that
comment. Code outside of the regions is kept, in order.
-/

namespace Exemplar

namespace Position

/-- The place of the character number `i`. -/
def ofIndex (text : List Char) (i : Nat) : Position := start.advance (text.take i)

theorem ofIndex_append (before after : List Char) : ofIndex (before ++ after) before.length = start.advance before := by
  rw [ofIndex, List.take_left]

theorem line_ofIndex_le (text : List Char) {i j : Nat} (ordered : i ≤ j) :
    (ofIndex text i).line ≤ (ofIndex text j).line := by
  have cut := List.take_append_drop i (text.take j)
  rw [List.take_take, Nat.min_eq_left ordered] at cut
  rw [ofIndex, ofIndex, ← cut, advance_append]
  exact line_le_advance _ _

theorem line_ofIndex_lt {text : List Char} {i j : Nat} (isBreak : text[i]? = some '\n') (ordered : i < j) :
    (ofIndex text i).line < (ofIndex text j).line := by
  refine Nat.lt_of_lt_of_le ?_ (line_ofIndex_le text (i := i + 1) ordered)
  rw [ofIndex, ofIndex, List.take_add_one, isBreak, advance_append]
  exact Nat.lt_succ_self _

end Position

namespace Instrument

theorem unifyBreaks_noReturn (text : List Char) : '\r' ∉ unifyBreaks text := by
  fun_induction unifyBreaks text with
  | case1 => simp
  | case2 rest ih => simp [ih]
  | case3 c rest other ih =>
      rw [List.mem_cons, not_or]
      refine ⟨?_, ih⟩
      split
      · decide
      · next noReturn => exact fun same => noReturn same.symm

/-- Only line feeds break the lines of a text that is worked on. -/
theorem normalize_noReturn (source : List Char) : '\r' ∉ normalize source := by
  have unified := unifyBreaks_noReturn source
  unfold normalize dropInterpreter
  split
  · next rest same =>
      rw [same] at unified
      exact fun member => unified (List.mem_cons_of_mem _ (List.mem_cons_of_mem _ ((List.dropWhile_sublist _).mem member)))
  · exact unified

end Instrument

theorem Lexeme.break_of_noReturn {text : List Char} {c : Char} (noReturn : '\r' ∉ text) (member : c ∈ text)
    (isBreak : isLineBreak c = true) : c = '\n' := by
  simp only [isLineBreak, Bool.or_eq_true, beq_iff_eq] at isBreak
  rcases isBreak with rfl | rfl
  · rfl
  · exact absurd member noReturn

namespace Comment

/-- No code stands before the comment on its line. -/
def IsFirst (text : List Char) (c : Comment) : Prop :=
  ∀ i < Position.index text c.span.start, IsCode text i → (Position.ofIndex text i).line < c.span.start.line

instance (text : List Char) (c : Comment) : Decidable (IsFirst text c) :=
  inferInstanceAs (Decidable (∀ i < _, _))

def code (text : List Char) : List Char :=
  (text.zipIdx.filter fun item => decide (IsCode text item.2)).map (·.1)

end Comment

namespace Comment

variable {text : List Char}

theorem ofIndex_lexemes {before after : List Lexeme} (whole : Lexeme.all text = before ++ after) :
    Position.ofIndex text (Lexeme.texts before).length = Position.start.advance (Lexeme.texts before) := by
  have same : text = Lexeme.texts before ++ Lexeme.texts after := by
    rw [← Lexeme.texts_append, ← whole, Lexeme.texts_all]
  conv_lhs => rw [same]
  exact Position.ofIndex_append _ _

theorem mem_lines {before after : List Lexeme} {body : List Char}
    (whole : Lexeme.all text = before ++ .line body :: after) :
    ⟨false, body, ⟨Position.start.advance (Lexeme.texts before),
      (Position.start.advance (Lexeme.texts before)).advance (Lexeme.line body).text⟩⟩ ∈ lines text :=
  List.mem_filter.mpr ⟨mem_scan.mpr ⟨before, .line body, after, whole, rfl⟩, rfl⟩

theorem start_eq_ofIndex (fits : Position.Fits text) {c : Comment} (member : c ∈ lines text) :
    c.span.start = Position.ofIndex text (Position.index text c.span.start) := by
  obtain ⟨before, lexeme, after, whole, isComment⟩ := mem_scan.mp (List.mem_filter.mp member).1
  have starts : c.span.start = Position.start.advance (Lexeme.texts before) := by
    cases lexeme <;> cases isComment <;> rfl
  rw [starts, index_lexemes fits whole, ofIndex_lexemes whole]

/-- Between a line comment and code behind it there is a line break first. -/
theorem break_before_code {body after : List Char} {between right : List Lexeme} {lexeme : Lexeme}
    (leads : Lexeme.Leads after (.line body :: (between ++ lexeme :: right)))
    (noReturn : '\r' ∉ Lexeme.texts (between ++ lexeme :: right)) (code : lexeme.isTrivia = false) :
    ∃ rest, Lexeme.texts between = '\n' :: rest := by
  have ends := (Lexeme.opens_line.mp leads.1).2
  have isFirst (c : Char) (rest : List Char)
      (begins : Lexeme.texts (between ++ lexeme :: right) = c :: rest) : c = '\n' :=
    Lexeme.break_of_noReturn noReturn (by simp [begins]) (ends c (by simp [begins]))
  obtain ⟨opens, _⟩ := (Lexeme.leads_append.mp leads.2).2
  cases between with
  | nil =>
      obtain ⟨c, rest, begins, noSpace⟩ := opens.head_not_space code
      obtain rfl := isFirst c (rest ++ Lexeme.texts right) (by simp [begins])
      cases noSpace
  | cons first others =>
      obtain ⟨c, rest, begins⟩ := List.exists_cons_of_ne_nil leads.2.1.text_ne_nil
      obtain rfl := isFirst c (rest ++ Lexeme.texts (others ++ lexeme :: right)) (by simp [begins])
      exact ⟨rest ++ Lexeme.texts others, by simp [begins]⟩

/-- Code in a region stands before a comment of it and on the line of that comment, which is not the first. -/
theorem IsRegion.code_line {p : Position} {left right : List Lexeme} {lexeme : Lexeme}
    (isRegion : IsRegion p (left ++ lexeme :: right)) {after : List Char}
    (leads : Lexeme.Leads after (left ++ lexeme :: right)) (noReturn : '\r' ∉ Lexeme.texts (left ++ lexeme :: right))
    (code : lexeme.isTrivia = false) :
    ∃ middle body rest, right = middle ++ .line body :: rest ∧
      p.line < (p.advance (Lexeme.texts (left ++ lexeme :: middle))).line ∧
      (p.advance (Lexeme.texts (left ++ lexeme :: middle))).line ≤ (p.advance (Lexeme.texts left)).line := by
  -- The comments next to the code: the last before it and the first behind it.
  obtain ⟨earlier, last, front⟩ : ∃ earlier last, linesFrom p left = earlier ++ [last] := by
    obtain ⟨body, opens⟩ := isRegion.opens
    cases left with
    | nil => cases opens; cases code
    | cons first others =>
        cases opens
        rw [linesFrom_line]
        exact ⟨_, _, (List.dropLast_concat_getLast (List.cons_ne_nil _ _)).symm⟩
  obtain ⟨next, later, back⟩ :
      ∃ next later, linesFrom (p.advance (Lexeme.texts (left ++ [lexeme]))) right = next :: later := by
    obtain ⟨body, closes⟩ := isRegion.closes
    rcases List.eq_nil_or_concat right with rfl | ⟨others, final, rfl⟩
    · rw [List.getLast?_concat] at closes
      cases closes
      cases code
    · rw [List.concat_eq_append, ← List.cons_append, ← List.append_assoc, List.getLast?_concat] at closes
      cases closes
      apply List.exists_cons_of_ne_nil
      rw [List.concat_eq_append, linesFrom_append, linesFrom_line]
      simp
  have plain : linesFrom (p.advance (Lexeme.texts left)) [lexeme] = [] := by
    cases lexeme with
    | line body => cases code
    | _ => rfl
  have consecutive : last.span.start.line + 1 = next.span.start.line := by
    have chain := isRegion.chain
    rw [← List.singleton_append, ← List.append_assoc, linesFrom_append, linesFrom_append, front, plain, back] at chain
    simp only [List.append_nil, List.append_assoc, List.singleton_append, List.map_append, List.map_cons] at chain
    exact (List.isChain_append.mp chain).2.1.rel
  obtain ⟨before, body, between, rfl, -, rfl, -⟩ := linesFrom_split front
  rw [← List.nil_append (next :: later)] at back
  obtain ⟨middle, body', rest, rfl, -, rfl, -⟩ := linesFrom_split back
  have place : (p.advance (Lexeme.texts ((before ++ .line body :: between) ++ [lexeme]))).advance (Lexeme.texts middle) =
      p.advance (Lexeme.texts ((before ++ .line body :: between) ++ lexeme :: middle)) := by
    rw [← Position.advance_append, ← Lexeme.texts_append, List.append_assoc, List.singleton_append]
  rw [place] at consecutive
  dsimp only at consecutive
  refine ⟨middle, body', rest, rfl, ?_, ?_⟩
  · have first := Position.line_le_advance p (Lexeme.texts before)
    omega
  · rw [List.append_assoc] at leads noReturn
    rw [Lexeme.texts_append] at noReturn
    obtain ⟨more, begins⟩ := break_before_code (Lexeme.leads_append.mp leads).2
      (fun member => noReturn (by simp [-Lexeme.texts_append, member])) code
    have split : p.advance (Lexeme.texts (before ++ .line body :: between)) =
        (((p.advance (Lexeme.texts before)).advance (Lexeme.line body).text).after '\n').advance more := by
      rw [Lexeme.texts_append, Position.advance_append, Lexeme.texts_cons, Position.advance_append, begins,
        Position.advance_cons]
    have through := Position.line_le_advance (p.advance (Lexeme.texts before)) (Lexeme.line body).text
    have later := Position.line_le_advance
      (((p.advance (Lexeme.texts before)).advance (Lexeme.line body).text).after '\n') more
    rw [Position.after_break] at later split
    rw [split, ← consecutive]
    dsimp only at later ⊢
    omega

end Comment

namespace Example

theorem Laid.region {p : Position} {lexemes : List Lexeme} {examples : List Example} (laid : Laid p lexemes examples)
    {e : Example} (member : e ∈ examples) :
    ∃ before region after, lexemes = before ++ (region ++ after) ∧
      Comment.IsRegion (p.advance (Lexeme.texts before)) region ∧
      e.input.span.start = p.advance (Lexeme.texts before) ∧ e.stop = p.advance (Lexeme.texts (before ++ region)) := by
  induction laid with
  | nil => cases member
  | @cons p before region after first rest isRegion starts stops later ih =>
      rcases List.mem_cons.mp member with rfl | inRest
      · exact ⟨before, region, after, rfl, isRegion, starts, stops⟩
      · obtain ⟨left, found, right, rfl, isRegion', starts', stops'⟩ := ih inRest
        refine ⟨before ++ (region ++ left), found, right, by simp, ?_, ?_, ?_⟩
        · simpa [Position.advance_append] using isRegion'
        · simpa [Position.advance_append] using starts'
        · simpa [Position.advance_append] using stops'

/-- Characters that no region takes are kept, in order. -/
theorem Laid.keeps {text front : List Char} {p : Position} {lexemes : List Lexeme} {examples : List Example}
    (laid : Laid p lexemes examples) (keep : Nat → Bool) (fits : Position.Fits text)
    (whole : text = front ++ Lexeme.texts lexemes) (place : p = Position.start.advance front)
    (spared : ∀ e ∈ examples, ∀ i, Position.index text e.input.span.start ≤ i → i < Position.index text e.stop →
      keep i = false) :
    ((((Lexeme.texts lexemes).zipIdx front.length).filter (keep ·.2)).map (·.1)).Sublist
      (Instrument.spliceFrom text p examples) := by
  have some (characters : List Char) (n : Nat) :
      (((characters.zipIdx n).filter (keep ·.2)).map (·.1)).Sublist characters := by
    have kept := (List.filter_sublist (p := (keep ·.2)) (l := characters.zipIdx n)).map (·.1)
    rwa [List.zipIdx_map_fst] at kept
  induction laid generalizing front with
  | nil =>
      rw [place, Instrument.spliceFrom_nil fits whole]
      exact some _ _
  | @cons p before region after e rest isRegion starts stops later ih =>
      have start : Position.index text e.input.span.start = (front ++ Lexeme.texts before).length := by
        rw [starts, place, ← Position.advance_append, whole, Lexeme.texts_append, ← List.append_assoc]
        exact Position.index_advance (by simpa [whole] using fits)
      have stop : Position.index text e.stop = (front ++ Lexeme.texts (before ++ region)).length := by
        rw [stops, place, ← Position.advance_append, whole, ← List.append_assoc, Lexeme.texts_append (before ++ region),
          ← List.append_assoc]
        exact Position.index_advance (by simpa [whole] using fits)
      have gone : ((Lexeme.texts region).zipIdx (front.length + (Lexeme.texts before).length)).filter (keep ·.2) =
          [] := by
        rw [List.filter_eq_nil_iff]
        rintro ⟨c, i⟩ member
        obtain ⟨low, high, _⟩ := List.mem_zipIdx member
        have notKept := spared e (by simp) i (by rw [start]; simpa using low)
          (by rw [stop]; simpa [Nat.add_assoc] using high)
        simp [notKept]
      have cut : text = (front ++ Lexeme.texts (before ++ region)) ++ Lexeme.texts after := by simp [whole]
      have tail := ih cut (by rw [place, ← Position.advance_append]) fun other member => spared other (by simp [member])
      subst place
      rw [Instrument.spliceFrom_cons fits whole starts, stops, Lexeme.texts_append, Lexeme.texts_append,
        List.zipIdx_append, List.zipIdx_append, List.filter_append, List.filter_append, gone, List.nil_append, List.map_append]
      refine (some _ _).append (List.Sublist.trans ?_ (List.sublist_append_right _ _))
      simpa [Nat.add_assoc] using tail

/-- No code stands before a comment on the lines of the example behind the first. -/
def Alone (text : List Char) (e : Example) : Prop :=
  ∀ c ∈ Comment.lines text, e.input.span.start.line < c.span.start.line → c.span.start.line ≤ e.stop.line →
    Comment.IsFirst text c

instance (text : List Char) (e : Example) : Decidable (Alone text e) :=
  inferInstanceAs (Decidable (∀ c ∈ Comment.lines text, _))

variable {text : List Char} {before region after : List Lexeme}

theorem isFirst_of_onlyBetween (fits : Position.Fits text) (noReturn : '\r' ∉ text)
    (whole : Lexeme.all text = before ++ (region ++ after))
    (isRegion : Comment.IsRegion (Position.start.advance (Lexeme.texts before)) region)
    (only : Comment.OnlyBetween text (Position.start.advance (Lexeme.texts before))
      (Position.start.advance (Lexeme.texts (before ++ region)))) {c : Comment} (found : c ∈ Comment.lines text)
    (later : (Position.start.advance (Lexeme.texts before)).line < c.span.start.line)
    (within : c.span.start.line ≤ (Position.start.advance (Lexeme.texts (before ++ region))).line) :
    Comment.IsFirst text c := by
  have whole' : Lexeme.all text = (before ++ region) ++ after := by rw [whole, List.append_assoc]
  have low := Comment.index_lexemes fits whole
  have high := Comment.index_lexemes fits whole'
  intro i early code
  refine Nat.lt_of_not_le fun onLine => only i (Nat.le_of_not_lt fun outside => ?_)
    (Nat.lt_of_not_le fun outside => ?_) code
  · -- Code before the region stands on no later line than its first.
    rw [low] at outside
    have line := Position.line_ofIndex_le text (Nat.le_of_lt outside)
    rw [Comment.ofIndex_lexemes whole] at line
    omega
  · -- Behind the region there is a line break first.
    rw [high] at outside
    have same : text = Lexeme.texts (before ++ region) ++ Lexeme.texts after := by
      rw [← Lexeme.texts_append, ← whole', Lexeme.texts_all]
    obtain ⟨d, rest, begins⟩ : ∃ d rest, Lexeme.texts after = d :: rest := by
      apply List.exists_cons_of_ne_nil
      intro none
      obtain ⟨⟨character, here, _⟩, _⟩ := code
      have bound := (List.getElem?_eq_some_iff.mp here).1
      rw [same, none, List.append_nil] at bound
      omega
    have leads : Lexeme.Leads (Lexeme.texts after) region := by
      have all := Lexeme.leads_all text
      rw [whole] at all
      simpa using (Lexeme.leads_append.mp (Lexeme.leads_append.mp all).2).1
    obtain rfl : d = '\n' := Lexeme.break_of_noReturn noReturn (by rw [same, begins]; simp)
      (isRegion.break_behind leads d (by rw [begins]; rfl))
    have isBreak : text[(Lexeme.texts (before ++ region)).length]? = some '\n' := by
      rw [same, begins]
      simp [-Lexeme.texts_append]
    have line := Position.line_ofIndex_lt isBreak (Nat.lt_of_le_of_lt outside early)
    rw [← Comment.start_eq_ofIndex fits found, Comment.ofIndex_lexemes whole'] at line
    omega

theorem trivia_of_isFirst (fits : Position.Fits text) (noReturn : '\r' ∉ text)
    (whole : Lexeme.all text = before ++ (region ++ after))
    (isRegion : Comment.IsRegion (Position.start.advance (Lexeme.texts before)) region)
    (first : ∀ c ∈ Comment.lines text, (Position.start.advance (Lexeme.texts before)).line < c.span.start.line →
      c.span.start.line ≤ (Position.start.advance (Lexeme.texts (before ++ region))).line → Comment.IsFirst text c) :
    ∀ lexeme ∈ region, lexeme.isTrivia = true := by
  intro lexeme inRegion
  cases code : lexeme.isTrivia with
  | true => rfl
  | false =>
      obtain ⟨left, right, rfl⟩ := List.append_of_mem inRegion
      have leads := Lexeme.leads_all text
      rw [whole] at leads
      have leadsRegion := (Lexeme.leads_append.mp (Lexeme.leads_append.mp leads).2).1
      have texts := congrArg Lexeme.texts whole
      rw [Lexeme.texts_all, Lexeme.texts_append, Lexeme.texts_append] at texts
      obtain ⟨middle, body, rest, rfl, later, onLine⟩ := isRegion.code_line leadsRegion
        (fun inText => noReturn (by rw [texts]; simp [-Lexeme.texts_append, inText])) code
      rw [← Position.advance_append, ← Lexeme.texts_append] at later onLine
      rw [← Position.advance_append, ← Lexeme.texts_append] at onLine
      have atCode : Lexeme.all text = (before ++ left) ++ lexeme :: (middle ++ .line body :: (rest ++ after)) := by
        simp [whole]
      have atComment : Lexeme.all text = (before ++ (left ++ lexeme :: middle)) ++ .line body :: (rest ++ after) := by
        simp [whole]
      have within : (Position.start.advance (Lexeme.texts (before ++ (left ++ lexeme :: middle)))).line ≤
          (Position.start.advance
            (Lexeme.texts (before ++ (left ++ lexeme :: (middle ++ .line body :: rest))))).line := by
        have more := Position.line_le_advance
          (Position.start.advance (Lexeme.texts (before ++ (left ++ lexeme :: middle))))
            (Lexeme.texts (.line body :: rest))
        rw [← Position.advance_append, ← Lexeme.texts_append] at more
        simpa using more
      have early : (Lexeme.texts (before ++ left)).length <
          Position.index text (Position.start.advance (Lexeme.texts (before ++ (left ++ lexeme :: middle)))) := by
        have long := List.length_pos_iff.mpr (Lexeme.leads_append.mp leadsRegion).2.1.text_ne_nil
        rw [Comment.index_lexemes fits atComment]
        simp only [Lexeme.texts_append, Lexeme.texts_cons, List.length_append]
        omega
      have line := first _ (Comment.mem_lines atComment) later within _ early (Comment.isCode_of_lexeme fits atCode code)
      rw [Comment.ofIndex_lexemes atCode] at line
      exact absurd onLine (Nat.not_le_of_lt line)

end Example

namespace Instrument

/-- The region of an example holds only comments and blanks exactly when no code stands before its later comments on
their lines, and when this is so for all examples in line comments, replacing them keeps all code in order. -/
theorem spliceLines_code (lead source : List Char) (fits : Position.Fits (normalize source)) :
    (∀ e ∈ Example.inLines lead (normalize source),
      Comment.OnlyBetween (normalize source) e.input.span.start e.stop ↔ e.Alone (normalize source)) ∧
    ((∀ e ∈ Example.inLines lead (normalize source), e.Alone (normalize source)) →
      (Comment.code (normalize source)).Sublist
        (spliceLines (normalize source) (Example.inLines lead (normalize source)))) := by
  have laid := Example.inLines_laid lead (normalize source)
  have exact' : ∀ e ∈ Example.inLines lead (normalize source),
      Comment.OnlyBetween (normalize source) e.input.span.start e.stop ↔ e.Alone (normalize source) := by
    intro e member
    obtain ⟨before, region, after, whole, isRegion, starts, stops⟩ := laid.region member
    rw [Example.Alone, starts, stops]
    refine ⟨fun only c found later within => ?_, fun first => ?_⟩
    · exact Example.isFirst_of_onlyBetween fits (normalize_noReturn source) whole isRegion only found later within
    · exact (Comment.onlyBetween_iff fits whole).mpr
        (Example.trivia_of_isFirst fits (normalize_noReturn source) whole isRegion first)
  refine ⟨exact', fun alone => ?_⟩
  have whole : normalize source = [] ++ Lexeme.texts (Lexeme.all (normalize source)) := by simp
  have kept := laid.keeps (fun i => decide (Comment.IsCode (normalize source) i)) fits whole rfl
    fun e member i low high => decide_eq_false ((exact' e member).mpr (alone e member) i low high)
  rw [Lexeme.texts_all] at kept
  exact kept

/-- Code may stand before the first comment of an example, and blanks and comments before the others. -/
theorem spliceLines_code_indented :
    (Comment.code (normalize "(f) ; > 1\r\n  #| b |# ; 1\r\n(g)".toList)).Sublist
      (spliceLines (normalize "(f) ; > 1\r\n  #| b |# ; 1\r\n(g)".toList)
        (Example.inLines [] (normalize "(f) ; > 1\r\n  #| b |# ; 1\r\n(g)".toList))) :=
  (spliceLines_code [] "(f) ; > 1\r\n  #| b |# ; 1\r\n(g)".toList (by decide)).2 (by decide)

/-- Code before a later comment of an example is lost: here the second definition. -/
theorem spliceLines_loses_code :
    ∃ source : List Char, source = "(define x 1) ; > x\n(define x (+ 3 4)) ; 7\n".toList ∧
      ¬ (∀ e ∈ Example.inLines [] (normalize source),
        Comment.OnlyBetween (normalize source) e.input.span.start e.stop) ∧
      '+' ∈ Comment.code (normalize source) ∧
      '+' ∉ spliceLines (normalize source) (Example.inLines [] (normalize source)) :=
  ⟨_, rfl, by decide, by decide, by decide⟩

end Instrument

end Exemplar
