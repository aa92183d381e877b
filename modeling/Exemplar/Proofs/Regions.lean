import Exemplar.Instrument
import Exemplar.Proofs.Stretches
import Mathlib.Data.List.Chain

/-!
# Where examples stand

The examples of line comments take runs of neighbouring comment lines, one behind another. In the text each of them
takes a region of lexemes from one line comment to another, and instrumentation replaces exactly these regions.
-/

namespace Exemplar

/-- The second line comes right below the first. -/
def CommentLine.Above (line next : CommentLine) : Prop := line.span.start.line + 1 = next.span.start.line

namespace Example

/-- Examples taken from comment lines, last first: each takes a run of neighbouring lines, from the one that it starts
with to the one that it stops with, and the runs of earlier examples come before. -/
inductive Taken : List CommentLine → List Example → Prop where
  | none (lines : List CommentLine) : Taken lines []
  | more {before run after : List CommentLine} {first last : CommentLine} {e : Example} {earlier : List Example}
      (rest : Taken before earlier) (head : run.head? = some first) (final : run.getLast? = some last)
      (starts : e.input.span.start = first.span.start) (stops : e.stop = last.span.stop)
      (chain : run.IsChain CommentLine.Above) : Taken (before ++ (run ++ after)) (e :: earlier)

theorem Taken.extend {lines : List CommentLine} {examples : List Example} (taken : Taken lines examples)
    (more : List CommentLine) : Taken (lines ++ more) examples := by
  cases taken with
  | none => exact .none _
  | @more before run after first last e earlier rest head final starts stops chain =>
      have same : before ++ (run ++ after) ++ more = before ++ (run ++ (after ++ more)) := by
        simp only [List.append_assoc]
      rw [same]
      exact .more rest head final starts stops chain

theorem Taken.append {left right : List CommentLine} {first second : List Example} (taken : Taken left first)
    (later : Taken right second) : Taken (left ++ right) (second ++ first) := by
  induction later with
  | none lines => exact taken.extend lines
  | more rest head final starts stops chain ih =>
      rw [← List.append_assoc]
      exact .more ih head final starts stops chain

/-- While an input may go on, the last example has no expected result yet. -/
def Expects (state : Phase × List Example) : Prop :=
  state.1 = .input → ∀ e ∈ state.2.head?, e.output = none

theorem step_expects (lead : List Char) {state : Phase × List Example} (expects : Expects state)
    (line : CommentLine) : Expects (step lead state line) := by
  obtain ⟨phase, examples⟩ := state
  unfold Expects step at *
  cases Marker.ofLine? lead line.text with
  | none => exact expects
  | some marker =>
      cases marker with
      | input body => simp
      | continuation body =>
          cases examples with
          | nil => simp
          | cons last earlier =>
              rintro rfl
              have empty := expects rfl last rfl
              simp [extend, empty]
      | plain body =>
          dsimp only
          split
          · cases examples <;> simp
          · simp

theorem step_taken_last {before run after : List CommentLine} {first line : CommentLine} {e e' : Example}
    {earlier : List Example} (rest : Taken before earlier) (head : run.head? = some first)
    (starts : e.input.span.start = first.span.start)
    (chain : (before ++ (run ++ after) ++ [line]).IsChain CommentLine.Above)
    (sameStart : e'.input.span.start = e.input.span.start) (stops : e'.stop = line.span.stop) :
    Taken (before ++ (run ++ after) ++ [line]) (e' :: earlier) := by
  have same : before ++ (run ++ after) ++ [line] = before ++ ((run ++ after ++ [line]) ++ []) := by simp
  rw [same] at chain ⊢
  have final : (run ++ after ++ [line]).getLast? = some line := List.getLast?_concat
  refine .more rest ?_ final (sameStart.trans starts) stops ?_
  · cases run with
    | nil => cases head
    | cons opener more => exact head
  · rw [List.append_nil] at chain
    exact chain.right_of_append

theorem step_taken (lead : List Char) {state : Phase × List Example} {lines : List CommentLine}
    {line : CommentLine} (taken : Taken lines state.2) (expects : Expects state)
    (chain : (lines ++ [line]).IsChain CommentLine.Above) :
    Taken (lines ++ [line]) (step lead state line).2 := by
  obtain ⟨phase, examples⟩ := state
  unfold step
  cases Marker.ofLine? lead line.text with
  | none => exact taken.extend [line]
  | some marker =>
      cases marker with
      | input body =>
          have single : [line].head? = some line ∧ [line].getLast? = some line := ⟨rfl, rfl⟩
          change Taken (lines ++ ([line] ++ [])) _
          exact .more taken single.1 single.2 rfl rfl (.singleton line)
      | continuation body =>
          cases taken with
          | none => exact .none _
          | @more before run after first last e earlier rest head final starts stops run =>
              have kept : Taken (before ++ (_ ++ after) ++ [line]) (e :: earlier) :=
                (Taken.more rest head final starts stops run).extend [line]
              cases phase with
              | idle => exact kept
              | input =>
                  have empty := expects rfl e rfl
                  exact step_taken_last rest head starts chain rfl (by simp [extend, empty, stop, Fragment.extend])
              | output =>
                  cases output : e.output with
                  | none => simpa [extend, output] using kept
                  | some fragment =>
                      exact step_taken_last rest head starts chain (by simp [extend, output])
                        (by simp [extend, output, stop, Fragment.extend])
      | plain body =>
          dsimp only
          split
          · cases taken with
            | none => exact .none _
            | more rest head final starts stops run =>
                exact step_taken_last rest head starts chain rfl rfl
          · exact taken.extend [line]

/-- The examples of neighbouring lines, before their expected results are looked at. -/
theorem fold_taken (lead : List Char) (lines : List CommentLine) (chain : lines.IsChain CommentLine.Above) :
    Taken lines (lines.foldl (step lead) (.idle, [])).2 := by
  suffices both : Taken lines (lines.foldl (step lead) (.idle, [])).2 ∧
      Expects (lines.foldl (step lead) (.idle, [])) from both.1
  induction lines using List.reverseRecOn with
  | nil => exact ⟨.none _, fun impossible => nomatch impossible⟩
  | append_singleton lines line ih =>
      obtain ⟨taken, expects⟩ := ih chain.left_of_append
      rw [List.foldl_append]
      exact ⟨step_taken lead taken expects chain, step_expects lead expects line⟩

@[simp] theorem normalize_start (e : Example) : e.normalize.input.span.start = e.input.span.start := by
  unfold normalize
  split
  · rfl
  · split <;> rfl

@[simp] theorem normalize_stop (e : Example) : e.normalize.stop = e.stop := by
  cases output : e.output with
  | none => simp [normalize, stop, output]
  | some fragment =>
      cases spec : ErrorSpec.ofText? fragment.value <;> simp [normalize, stop, output, spec]

theorem Taken.normalized {lines : List CommentLine} {examples : List Example} (taken : Taken lines examples) :
    Taken lines (examples.map normalize) := by
  induction taken with
  | none lines => exact .none _
  | more rest head final starts stops chain ih =>
      exact .more ih head final ((normalize_start _).trans starts) ((normalize_stop _).trans stops) chain

theorem ofGroup_taken (lead : List Char) {group : List CommentLine} (chain : group.IsChain CommentLine.Above) :
    Taken group (ofGroup lead group).reverse := by
  rw [ofGroup, List.map_reverse, List.reverse_reverse]
  exact (fold_taken lead group chain).normalized

theorem ofGroups_taken (lead : List Char) {groups : List (List CommentLine)}
    (chains : ∀ group ∈ groups, group.IsChain CommentLine.Above) :
    Taken groups.flatten (ofGroups lead groups).reverse := by
  induction groups with
  | nil => exact .none _
  | cons group rest ih =>
      have here := ofGroup_taken lead (chains group (by simp))
      have later := ih fun other member => chains other (by simp [member])
      rw [ofGroups, List.flatMap_cons, List.reverse_append, List.flatten_cons]
      exact here.append later

end Example

/-! ## Groups of line comments -/

namespace Comment

theorem groupLines_cons (line : CommentLine) (rest : List CommentLine) :
    (∃ next more group groups, rest = next :: more ∧ groupLines rest = group :: groups ∧ line.Above next ∧
        groupLines (line :: rest) = (line :: group) :: groups) ∨
      groupLines (line :: rest) = [line] :: groupLines rest := by
  cases rest with
  | nil => exact .inr rfl
  | cons next more =>
      cases cut : groupLines (next :: more) with
      | nil => exact .inr (by simp only [groupLines.eq_def (line :: next :: more), cut])
      | cons group groups =>
          by_cases above : line.span.start.line + 1 = next.span.start.line
          · exact .inl ⟨next, more, group, groups, rfl, rfl, above, by
              simp only [groupLines.eq_def (line :: next :: more), cut]; exact if_pos above⟩
          · exact .inr (by simp only [groupLines.eq_def (line :: next :: more), cut]; exact if_neg above)

@[simp] theorem groupLines_flatten (lines : List CommentLine) : (groupLines lines).flatten = lines := by
  induction lines with
  | nil => rfl
  | cons line rest ih =>
      rcases groupLines_cons line rest with ⟨next, more, group, groups, _, cut, _, joined⟩ | alone
      · rw [joined, List.flatten_cons, List.cons_append, ← List.flatten_cons, ← cut, ih]
      · rw [alone, List.flatten_cons, ih]
        rfl

theorem groupLines_ne_nil {lines group : List CommentLine} (member : group ∈ groupLines lines) : group ≠ [] := by
  induction lines generalizing group with
  | nil => cases member
  | cons line rest ih =>
      rcases groupLines_cons line rest with ⟨next, more, first, groups, _, cut, _, joined⟩ | alone
      · rw [joined, List.mem_cons] at member
        rcases member with rfl | later
        · exact List.cons_ne_nil _ _
        · exact ih (by rw [cut]; exact List.mem_cons_of_mem _ later)
      · rw [alone, List.mem_cons] at member
        rcases member with rfl | later
        · exact List.cons_ne_nil _ _
        · exact ih later

theorem groupLines_chain {lines group : List CommentLine} (member : group ∈ groupLines lines) :
    group.IsChain CommentLine.Above := by
  induction lines generalizing group with
  | nil => cases member
  | cons line rest ih =>
      rcases groupLines_cons line rest with ⟨next, more, first, groups, here, cut, above, joined⟩ | alone
      · rw [joined, List.mem_cons] at member
        rcases member with rfl | later
        · have firstMember : first ∈ groupLines rest := by rw [cut]; exact List.mem_cons_self
          have chain := ih firstMember
          have nonempty := groupLines_ne_nil firstMember
          have lines := groupLines_flatten rest
          rw [cut, here] at lines
          cases first with
          | nil => exact absurd rfl nonempty
          | cons opener others =>
              obtain rfl : opener = next := (List.cons.inj lines).1
              exact .cons_cons above chain
        · exact ih (by rw [cut]; exact List.mem_cons_of_mem _ later)
      · rw [alone, List.mem_cons] at member
        rcases member with rfl | later
        · exact .singleton line
        · exact ih later

end Comment

theorem Example.inLines_taken (lead text : List Char) :
    Taken ((Comment.lines text).zipIdx.map fun (comment, index) => Comment.commentLine comment index)
      (inLines lead text).reverse := by
  have chains : ∀ group ∈ Comment.lineGroups (Comment.lines text), group.IsChain CommentLine.Above :=
    fun group member => Comment.groupLines_chain member
  have taken := ofGroups_taken lead chains
  rw [Comment.lineGroups, Comment.groupLines_flatten] at taken
  exact taken

/-! ## Regions of lexemes -/

/-- Lexemes from one line comment to another, all of whose line comments stand right below each other. -/
structure Comment.IsRegion (p : Position) (region : List Lexeme) : Prop where
  opens : ∃ body, region.head? = some (.line body)
  closes : ∃ body, region.getLast? = some (.line body)
  chain : ((linesFrom p region).map (·.span.start.line)).IsChain fun line next => line + 1 = next

/-- A run of line comments is a region of the lexemes. -/
theorem Comment.linesFrom_run {p : Position} {lexemes : List Lexeme} {before run after : List Comment}
    (cut : linesFrom p lexemes = before ++ (run ++ after)) {first last : Comment}
    (head : run.head? = some first) (final : run.getLast? = some last) :
    ∃ left region right, lexemes = left ++ (region ++ right) ∧ linesFrom p left = before ∧
      linesFrom (p.advance (Lexeme.texts left)) region = run ∧
      (∃ body, region.head? = some (.line body)) ∧ (∃ body, region.getLast? = some (.line body)) ∧
      first.span.start = p.advance (Lexeme.texts left) ∧
      last.span.stop = p.advance (Lexeme.texts (left ++ region)) := by
  obtain ⟨tail, rfl⟩ : ∃ tail, run = first :: tail := by
    cases run with
    | nil => cases head
    | cons c tail => cases head; exact ⟨tail, rfl⟩
  obtain ⟨left, body, right, rfl, front, comment, back⟩ := linesFrom_split cut
  cases tail using List.reverseRecOn with
  | nil =>
      obtain rfl : first = last := by simpa using final
      refine ⟨left, [.line body], right, rfl, front, ?_, ⟨body, rfl⟩, ⟨body, rfl⟩, by rw [comment], by rw [comment]⟩
      rw [linesFrom_line, comment]
      simp [linesFrom, ofLexemes, Position.advance_append]
  | append_singleton middle closing =>
      obtain rfl : closing = last := by
        rw [← List.cons_append, List.getLast?_concat] at final
        exact Option.some.inj final
      have inner : linesFrom (p.advance (Lexeme.texts (left ++ [.line body]))) right =
          middle ++ closing :: after := by simpa using back
      obtain ⟨left', body', right', rfl, front', comment', back'⟩ := linesFrom_split inner
      refine ⟨left, .line body :: (left' ++ [.line body']), right', by simp, front, ?_, ⟨body, rfl⟩,
        ⟨body', by rw [← List.cons_append, List.getLast?_concat]⟩, by rw [comment], ?_⟩
      · rw [linesFrom_line, linesFrom_append, linesFrom_line]
        have place : (p.advance (Lexeme.texts left)).advance (Lexeme.line body).text =
            p.advance (Lexeme.texts (left ++ [.line body])) := by simp [Position.advance_append]
        rw [place, front', comment, comment']
        simp [linesFrom, ofLexemes, Position.advance_append]
      · rw [comment']
        simp [Position.advance_append]

namespace Example

/-- Examples that take regions of the lexemes from `p` on, one behind another. -/
inductive Laid : Position → List Lexeme → List Example → Prop where
  | nil {p : Position} {lexemes : List Lexeme} : Laid p lexemes []
  | cons {p : Position} {before region after : List Lexeme} {e : Example} {rest : List Example}
      (isRegion : Comment.IsRegion (p.advance (Lexeme.texts before)) region)
      (starts : e.input.span.start = p.advance (Lexeme.texts before))
      (stops : e.stop = p.advance (Lexeme.texts (before ++ region)))
      (later : Laid (p.advance (Lexeme.texts (before ++ region))) after rest) :
      Laid p (before ++ (region ++ after)) (e :: rest)

theorem Laid.snoc {p : Position} {left region after : List Lexeme} {examples : List Example} {e : Example}
    (laid : Laid p left examples) (isRegion : Comment.IsRegion (p.advance (Lexeme.texts left)) region)
    (starts : e.input.span.start = p.advance (Lexeme.texts left))
    (stops : e.stop = p.advance (Lexeme.texts (left ++ region))) :
    Laid p (left ++ (region ++ after)) (examples ++ [e]) := by
  induction laid with
  | nil => exact .cons isRegion starts stops .nil
  | @cons p before first between e' rest isFirst starts' stops' later ih =>
      have place : p.advance (Lexeme.texts (before ++ (first ++ between))) =
          (p.advance (Lexeme.texts (before ++ first))).advance (Lexeme.texts between) := by
        simp [Position.advance_append]
      have place' : p.advance (Lexeme.texts (before ++ (first ++ between) ++ region)) =
          (p.advance (Lexeme.texts (before ++ first))).advance (Lexeme.texts (between ++ region)) := by
        simp [Position.advance_append]
      rw [place] at isRegion starts
      rw [place'] at stops
      rw [List.append_assoc, List.append_assoc]
      exact .cons isFirst starts' stops' (ih isRegion starts stops)

theorem Taken.laid {lines : List CommentLine} {examples : List Example} (taken : Taken lines examples)
    {p : Position} {lexemes : List Lexeme}
    (spans : (Comment.linesFrom p lexemes).map (·.span) = lines.map (·.span)) :
    Laid p lexemes examples.reverse := by
  induction taken generalizing lexemes with
  | none lines => exact .nil
  | @more before run after first last e earlier rest head final starts stops chain ih =>
      rw [List.map_append, List.map_append, List.map_eq_append_iff] at spans
      obtain ⟨comments, others, cut, beforeSpans, spans⟩ := spans
      obtain ⟨taken, behind, rfl, runSpans, _⟩ := List.map_eq_append_iff.mp spans
      have ends := congrArg List.head? runSpans
      have finals := congrArg List.getLast? runSpans
      rw [List.head?_map, List.head?_map, head] at ends
      rw [List.getLast?_map, List.getLast?_map, final] at finals
      obtain ⟨opener, isFirst, sameFirst⟩ := Option.map_eq_some_iff.mp ends
      obtain ⟨closer, isLast, sameLast⟩ := Option.map_eq_some_iff.mp finals
      obtain ⟨left, region, right, rfl, front, inside, opens, closes, low, high⟩ :=
        Comment.linesFrom_run cut isFirst isLast
      have neighbours : ((Comment.linesFrom (p.advance (Lexeme.texts left)) region).map
          (·.span.start.line)).IsChain fun line next => line + 1 = next := by
        have sameLines : (Comment.linesFrom (p.advance (Lexeme.texts left)) region).map (·.span.start.line) =
            run.map (·.span.start.line) := by
          have mapped := congrArg (List.map fun span : LineSpan => span.start.line) runSpans
          rw [List.map_map, List.map_map] at mapped
          rw [inside]
          exact mapped
        rw [sameLines, List.isChain_map]
        exact chain
      rw [List.reverse_cons]
      refine (ih (front ▸ beforeSpans)).snoc ⟨opens, closes, neighbours⟩ ?_ ?_
      · rw [starts, ← low, sameFirst]
      · rw [stops, ← high, sameLast]

/-- The examples of line comments take regions of the text's lexemes. -/
theorem inLines_laid (lead text : List Char) : Laid .start (Lexeme.all text) (inLines lead text) := by
  have spans : (Comment.linesFrom .start (Lexeme.all text)).map (·.span) =
      ((Comment.lines text).zipIdx.map fun (comment, index) => Comment.commentLine comment index).map (·.span) := by
    have lines : Comment.linesFrom .start (Lexeme.all text) = Comment.lines text := (Comment.lines_eq text).symm
    rw [lines, List.map_map]
    conv_lhs => rw [← List.zipIdx_map_fst 0 (Comment.lines text), List.map_map]
    rfl
  have laid := (inLines_taken lead text).laid spans
  rwa [List.reverse_reverse] at laid

end Example

/-! ## Replacing regions -/

namespace Instrument

theorem spliceFrom_nil {text front : List Char} {lexemes : List Lexeme} (fits : Position.Fits text)
    (whole : text = front ++ Lexeme.texts lexemes) :
    spliceFrom text (Position.start.advance front) [] = Lexeme.texts lexemes := by
  subst whole
  exact Position.slice_fileEnd fits

/-- What stands before the region of the first example stays, and the example's code stands for the region. -/
theorem spliceFrom_cons {text front : List Char} {before region after : List Lexeme} {e : Example}
    {rest : List Example} (fits : Position.Fits text)
    (whole : text = front ++ Lexeme.texts (before ++ (region ++ after)))
    (starts : e.input.span.start = (Position.start.advance front).advance (Lexeme.texts before)) :
    spliceFrom text (Position.start.advance front) (e :: rest) =
      Lexeme.texts before ++ (Harness.code 0 e ++ spliceFrom text e.stop rest) := by
  subst whole
  rw [spliceFrom, starts, ← Position.advance_append]
  congr 1
  rw [Lexeme.texts_append] at fits ⊢
  exact Position.slice_advance fits

end Instrument

end Exemplar
