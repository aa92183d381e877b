import Exemplar.Proofs.Extraction
import Mathlib.Data.List.TakeWhile

/-!
# The grammar of comment lines

What the lines of a group say without the state in which they are read. The lines that say something are cut at each
line that is marked as an input. Each cut is one example: its input is that line with the continuations right behind
it, its expected result the next line with the continuations right behind that one, when it is plain and not empty.
-/

namespace Exemplar

/-- A comment line and what it says. -/
structure MarkedLine where
  marker : Marker
  line : CommentLine
  deriving DecidableEq, Repr

namespace MarkedLine

def isInput (marked : MarkedLine) : Bool :=
  match marked.marker with
  | .input _ => true
  | _ => false

def isContinuation (marked : MarkedLine) : Bool :=
  match marked.marker with
  | .continuation _ => true
  | _ => false

/-- The lines of a group that say something. -/
def ofGroup (lead : List Char) (group : List CommentLine) : List MarkedLine :=
  group.filterMap fun line => (Marker.ofLine? lead line.text).map (⟨·, line⟩)

end MarkedLine

/-- A line with the given body and the continuations right behind it. -/
structure Passage where
  body : List Char
  first : CommentLine
  more : List MarkedLine
  deriving DecidableEq, Repr

namespace Passage

def last (passage : Passage) : CommentLine := (passage.more.map (·.line)).getLastD passage.first

/-- The bodies of the lines, from the first line to the last. -/
def fragment (passage : Passage) : Fragment :=
  ⟨Text.joinLines (passage.body :: passage.more.map (·.marker.body)),
    ⟨passage.first.span.start, passage.last.span.stop⟩⟩

end Passage

/-- The lines from one that is marked as an input up to the next such line. -/
structure Segment where
  body : List Char
  opener : CommentLine
  rest : List MarkedLine
  deriving DecidableEq, Repr

/-- The cuts of some lines at each that is marked as an input. -/
def MarkedLine.segments : List MarkedLine → List Segment
  | [] => []
  | ⟨.input body, opener⟩ :: later => ⟨body, opener, later.takeWhile (!·.isInput)⟩ :: segments later
  | _ :: later => segments later

namespace Segment

def lines (segment : Segment) : List MarkedLine := ⟨.input segment.body, segment.opener⟩ :: segment.rest

/-- The passage with the input. -/
def question (segment : Segment) : Passage :=
  ⟨segment.body, segment.opener, segment.rest.takeWhile (·.isContinuation)⟩

/-- The passage with the expected result, when the line behind the input is plain and not empty. -/
def answer? (segment : Segment) : Option Passage :=
  match segment.rest.dropWhile (·.isContinuation) with
  | ⟨.plain body, first⟩ :: later =>
      if body = [] then none else some ⟨body, first, later.takeWhile (·.isContinuation)⟩
  | _ => none

/-- The example of a segment, before the shorthand for an expected error is looked at. -/
def toExample (segment : Segment) : Example where
  commentIndex := (segment.answer?.getD segment.question).last.index
  negate := false
  input := segment.question.fragment
  output := segment.answer?.map (·.fragment)

/-! ## The state of reading -/

/-- Where a continuation behind the segment would go. -/
def phase (segment : Segment) : Example.Phase :=
  match segment.rest.dropWhile (·.isContinuation) with
  | [] => .input
  | ⟨.plain body, _⟩ :: later => if body ≠ [] ∧ later.all (·.isContinuation) then .output else .idle
  | _ => .idle

def add (segment : Segment) (marked : MarkedLine) : Segment := { segment with rest := segment.rest ++ [marked] }

end Segment

theorem Passage.fragment_concat (body : List Char) (first : CommentLine) (more : List MarkedLine)
    (marked : MarkedLine) :
    fragment ⟨body, first, more ++ [marked]⟩ =
      (fragment ⟨body, first, more⟩).extend marked.marker.body marked.line.span.stop := by
  have joined (bodies : List (List Char)) (body last : List Char) :
      Text.joinLines (body :: (bodies ++ [last])) = Text.joinLines (body :: bodies) ++ '\n' :: last := by
    induction bodies generalizing body with
    | nil => rfl
    | cons second others ih =>
        have tail := ih second
        simp only [Text.joinLines, Text.join, List.cons_append, List.append_assoc] at tail ⊢
        rw [tail]
  simp [fragment, last, Fragment.extend, joined]

namespace Segment

variable {segment : Segment} {next : MarkedLine} {later : List MarkedLine}

theorem takeWhile_append_of_behind {α : Type} {holds : α → Bool} {left : List α} (behind : left.dropWhile holds ≠ [])
    (right : List α) : (left ++ right).takeWhile holds = left.takeWhile holds := by
  have lengths := congrArg List.length (List.takeWhile_append_dropWhile (p := holds) (l := left))
  have positive := List.length_pos_iff.mpr behind
  rw [List.length_append] at lengths
  rw [List.takeWhile_append, if_neg (by omega)]

theorem add_of_none (behind : segment.rest.dropWhile (·.isContinuation) = []) (marked : MarkedLine) :
    (segment.add marked).rest.takeWhile (·.isContinuation) =
        segment.rest ++ [marked].takeWhile (·.isContinuation) ∧
      (segment.add marked).rest.dropWhile (·.isContinuation) = [marked].dropWhile (·.isContinuation) := by
  have all := List.dropWhile_eq_nil_iff.mp behind
  exact ⟨List.takeWhile_append_of_pos all, List.dropWhile_append_of_pos all⟩

theorem add_of_behind (behind : segment.rest.dropWhile (·.isContinuation) = next :: later) (marked : MarkedLine) :
    (segment.add marked).rest.takeWhile (·.isContinuation) = segment.rest.takeWhile (·.isContinuation) ∧
      (segment.add marked).rest.dropWhile (·.isContinuation) = next :: (later ++ [marked]) := by
  constructor
  · exact takeWhile_append_of_behind (by simp [behind]) [marked]
  · rw [add, List.dropWhile_append, behind]
    rfl

theorem view_of_none (behind : segment.rest.dropWhile (·.isContinuation) = []) :
    segment.phase = .input ∧ segment.answer? = none := by
  simp [phase, answer?, behind]

theorem view_of_answer {body : List Char} {first : CommentLine}
    (behind : segment.rest.dropWhile (·.isContinuation) = ⟨.plain body, first⟩ :: later) (nonempty : body ≠ []) :
    segment.phase = (if later.all (·.isContinuation) then .output else .idle) ∧
      segment.answer? = some ⟨body, first, later.takeWhile (·.isContinuation)⟩ := by
  simp [phase, answer?, behind, nonempty]

theorem view_of_other (behind : segment.rest.dropWhile (·.isContinuation) = next :: later)
    (other : ∀ body, next.marker = .plain body → body = []) : segment.phase = .idle ∧ segment.answer? = none := by
  obtain ⟨marker, line⟩ := next
  cases marker with
  | plain body =>
      obtain rfl := other body rfl
      simp [phase, answer?, behind]
  | _ => simp [phase, answer?, behind]

variable {lead : List Char} {earlier : List Example} {line : CommentLine} {marker : Marker}

/-- While the input may go on, one more line continues it, is its expected result or ends the example. -/
theorem step_question (behind : segment.rest.dropWhile (·.isContinuation) = [])
    (said : Marker.ofLine? lead line.text = some marker) (other : MarkedLine.isInput ⟨marker, line⟩ = false) :
    Example.step lead (segment.phase, segment.toExample :: earlier) line =
      ((segment.add ⟨marker, line⟩).phase, (segment.add ⟨marker, line⟩).toExample :: earlier) := by
  obtain ⟨taken, dropped⟩ := add_of_none behind ⟨marker, line⟩
  obtain ⟨asking, noAnswer⟩ := view_of_none behind
  have whole := List.takeWhile_eq_self_iff.mpr (List.dropWhile_eq_nil_iff.mp behind)
  have asked : segment.question = ⟨segment.body, segment.opener, segment.rest⟩ := by rw [question, whole]
  rw [asking]
  cases marker with
  | input body => cases other
  | continuation body =>
      obtain ⟨stays, stillNone⟩ := view_of_none dropped
      have longer : (segment.add ⟨.continuation body, line⟩).question =
          ⟨segment.body, segment.opener, segment.rest ++ [⟨.continuation body, line⟩]⟩ := by rw [question, taken]; rfl
      simp only [Example.step, said, stays, toExample, noAnswer, stillNone, asked, longer, Passage.fragment_concat]
      simp [Example.extend, Passage.last, Marker.body]
  | plain body =>
      have same : (segment.add ⟨.plain body, line⟩).question = ⟨segment.body, segment.opener, segment.rest⟩ := by
        rw [question, taken, List.takeWhile_cons_of_neg (by simp [MarkedLine.isContinuation]), List.append_nil]
        rfl
      by_cases empty : body = []
      · subst empty
        obtain ⟨ends, stillNone⟩ := view_of_other dropped (by simp)
        simp only [Example.step, said, ends, toExample, noAnswer, stillNone, asked, same]
        simp
      · obtain ⟨answers, isAnswer⟩ := view_of_answer dropped empty
        simp only [Example.step, said, answers, toExample, noAnswer, isAnswer, asked, same]
        simp [empty, Passage.last, Passage.fragment, Text.joinLines, Text.join]

theorem step_idle (e : Example) (said : Marker.ofLine? lead line.text = some marker)
    (other : MarkedLine.isInput ⟨marker, line⟩ = false) :
    Example.step lead (.idle, e :: earlier) line = (.idle, e :: earlier) := by
  cases marker with
  | input body => cases other
  | continuation body => simp [Example.step, said, Example.extend]
  | plain body => simp [Example.step, said]

/-- Behind the input the expected result may go on, and nothing else counts. -/
theorem step_behind (behind : segment.rest.dropWhile (·.isContinuation) = next :: later)
    (said : Marker.ofLine? lead line.text = some marker) (other : MarkedLine.isInput ⟨marker, line⟩ = false) :
    Example.step lead (segment.phase, segment.toExample :: earlier) line =
      ((segment.add ⟨marker, line⟩).phase, (segment.add ⟨marker, line⟩).toExample :: earlier) := by
  obtain ⟨taken, dropped⟩ := add_of_behind behind ⟨marker, line⟩
  have same : (segment.add ⟨marker, line⟩).question = segment.question := by rw [question, taken]; rfl
  by_cases answered : ∃ body, next.marker = .plain body ∧ body ≠ []
  · obtain ⟨text, isPlain, nonempty⟩ := answered
    obtain ⟨_, first⟩ := next
    subst isPlain
    obtain ⟨phase, isAnswer⟩ := view_of_answer behind nonempty
    obtain ⟨phase', isAnswer'⟩ := view_of_answer dropped nonempty
    by_cases all : later.all (·.isContinuation) = true
    · have whole := List.takeWhile_eq_self_iff.mpr (List.all_eq_true.mp all)
      rw [if_pos all] at phase
      rw [List.takeWhile_append_of_pos (List.all_eq_true.mp all)] at isAnswer'
      rw [List.all_append, all, Bool.true_and] at phase'
      cases marker with
      | input body => cases other
      | continuation body =>
          rw [List.takeWhile_cons_of_pos rfl, List.takeWhile_nil] at isAnswer'
          simp only [Example.step, said, phase, phase', toExample, isAnswer, isAnswer', same, whole]
          simp [Example.extend, Passage.fragment_concat, Passage.last, Marker.body, MarkedLine.isContinuation]
      | plain body =>
          rw [List.takeWhile_cons_of_neg (by simp [MarkedLine.isContinuation]), List.append_nil] at isAnswer'
          simp only [Example.step, said, phase, phase', toExample, isAnswer, isAnswer', same, whole]
          simp [MarkedLine.isContinuation]
    · have shorter : later.dropWhile (·.isContinuation) ≠ [] := by
        rw [List.all_eq_true] at all
        exact fun none => all (List.dropWhile_eq_nil_iff.mp none)
      rw [if_neg all] at phase
      rw [List.all_append, Bool.eq_false_iff.mpr all, Bool.false_and, if_neg (by simp)] at phase'
      rw [takeWhile_append_of_behind shorter] at isAnswer'
      rw [phase, phase', step_idle _ said other]
      simp only [toExample, isAnswer, isAnswer', same]
  · have none : ∀ body, next.marker = .plain body → body = [] :=
      fun body isPlain => by_contra fun nonempty => answered ⟨body, isPlain, nonempty⟩
    obtain ⟨idle, noAnswer⟩ := view_of_other behind none
    obtain ⟨idle', noAnswer'⟩ := view_of_other dropped none
    rw [idle, idle', step_idle _ said other]
    simp only [toExample, noAnswer, noAnswer', same]

/-- Reading one more line that opens no example does to the state what the line adds to the segment. -/
theorem step_add (said : Marker.ofLine? lead line.text = some marker)
    (other : MarkedLine.isInput ⟨marker, line⟩ = false) :
    Example.step lead (segment.phase, segment.toExample :: earlier) line =
      ((segment.add ⟨marker, line⟩).phase, (segment.add ⟨marker, line⟩).toExample :: earlier) := by
  cases behind : segment.rest.dropWhile (·.isContinuation) with
  | nil => exact step_question behind said other
  | cons next later => exact step_behind behind said other

end Segment

/-! ## Whole groups -/

namespace MarkedLine

variable {lead : List Char} {group : List CommentLine}

theorem ofGroup_cons (line : CommentLine) :
    ofGroup lead (line :: group) =
      ((Marker.ofLine? lead line.text).map (⟨·, line⟩)).toList ++ ofGroup lead group := by
  cases said : Marker.ofLine? lead line.text <;> simp [ofGroup, said]

theorem segments_other {marked : MarkedLine} (other : marked.isInput = false) (later : List MarkedLine) :
    segments (marked :: later) = segments later := by
  obtain ⟨marker, line⟩ := marked
  cases marker with
  | input body => cases other
  | _ => rfl

/-- Nothing is lost by cutting but what stands before the first input. -/
theorem segments_flatten (lines : List MarkedLine) :
    (segments lines).flatMap Segment.lines = lines.dropWhile (!·.isInput) := by
  induction lines with
  | nil => rfl
  | cons marked later ih =>
      cases input : marked.isInput with
      | false => rw [segments_other input, List.dropWhile_cons_of_pos (by simp [input]), ih]
      | true =>
          obtain ⟨marker, line⟩ := marked
          cases marker with
          | input body =>
              rw [List.dropWhile_cons_of_neg (by simp [input]), segments, List.flatMap_cons, ih, Segment.lines,
                List.cons_append, List.takeWhile_append_dropWhile]
          | _ => cases input

theorem segments_rest (lines : List MarkedLine) :
    ∀ segment ∈ segments lines, ∀ marked ∈ segment.rest, marked.isInput = false := by
  induction lines with
  | nil => simp [segments]
  | cons marked later ih =>
      obtain ⟨marker, line⟩ := marked
      cases marker with
      | input body =>
          refine List.forall_mem_cons.mpr ⟨fun other member => ?_, ih⟩
          simpa using List.mem_takeWhile_imp member
      | _ => exact ih

theorem segments_length (group : List CommentLine) :
    (segments (ofGroup lead group)).length = group.countP fun line => Marker.opens lead line.text := by
  induction group with
  | nil => rfl
  | cons line rest ih =>
      rw [ofGroup_cons, List.countP_cons, ← ih, Marker.opens]
      cases Marker.ofLine? lead line.text with
      | none => rfl
      | some marker => cases marker <;> rfl

end MarkedLine

namespace Example

variable {lead : List Char}

/-- Behind an input the lines up to the next one complete its example, and the others follow. -/
theorem fold_segment (group : List CommentLine) (segment : Segment) (earlier : List Example) :
    (group.foldl (step lead) (segment.phase, segment.toExample :: earlier)).2.reverse =
      earlier.reverse ++
        Segment.toExample { segment with
          rest := segment.rest ++ (MarkedLine.ofGroup lead group).takeWhile (!·.isInput) } ::
        (MarkedLine.segments (MarkedLine.ofGroup lead group)).map (·.toExample) := by
  induction group generalizing segment earlier with
  | nil => simp [MarkedLine.ofGroup, MarkedLine.segments]
  | cons line rest ih =>
      rw [List.foldl_cons, MarkedLine.ofGroup_cons]
      cases said : Marker.ofLine? lead line.text with
      | none =>
          have stays : step lead (segment.phase, segment.toExample :: earlier) line =
              (segment.phase, segment.toExample :: earlier) := by simp [step, said]
          rw [stays, ih]
          rfl
      | some marker =>
          cases input : MarkedLine.isInput ⟨marker, line⟩ with
          | false =>
              rw [Segment.step_add said input, ih, Option.map_some, Option.toList_some, List.singleton_append,
                List.takeWhile_cons_of_pos (by simp [input]), MarkedLine.segments_other input]
              simp [Segment.add]
          | true =>
              cases marker with
              | input body =>
                  have opens : step lead (segment.phase, segment.toExample :: earlier) line =
                      (Segment.phase ⟨body, line, []⟩,
                        Segment.toExample ⟨body, line, []⟩ :: segment.toExample :: earlier) := by
                    simp only [step, said]
                    rfl
                  rw [opens, ih, Option.map_some, Option.toList_some, List.singleton_append,
                    List.takeWhile_cons_of_neg (by simp [input]), MarkedLine.segments]
                  simp
              | _ => cases input

theorem fold_segments (group : List CommentLine) :
    (group.foldl (step lead) (.idle, [])).2.reverse =
      (MarkedLine.segments (MarkedLine.ofGroup lead group)).map (·.toExample) := by
  induction group with
  | nil => rfl
  | cons line rest ih =>
      rw [List.foldl_cons, MarkedLine.ofGroup_cons]
      cases said : Marker.ofLine? lead line.text with
      | none =>
          have stays : step lead (.idle, []) line = (.idle, []) := by simp [step, said]
          rw [stays, ih]
          rfl
      | some marker =>
          cases marker with
          | input body =>
              have opens : step lead (.idle, []) line =
                  (Segment.phase ⟨body, line, []⟩, [Segment.toExample ⟨body, line, []⟩]) := by
                simp only [step, said]
                rfl
              rw [opens, fold_segment]
              rfl
          | continuation body =>
              have stays : step lead (.idle, []) line = (.idle, []) := by simp [step, said]
              rw [stays, ih]
              rfl
          | plain body =>
              have stays : step lead (.idle, []) line = (.idle, []) := by simp [step, said]
              rw [stays, ih]
              rfl

theorem ofGroup_segments (group : List CommentLine) :
    ofGroup lead group =
      (MarkedLine.segments (MarkedLine.ofGroup lead group)).map fun segment => segment.toExample.normalize := by
  rw [ofGroup, fold_segments, List.map_map]
  rfl

/-- The examples of a group are those of its segments, which are all lines from the first input on that say something,
cut at each input. What a line says is what it spells. -/
theorem ofGroup_grammar (lead : List Char) (group : List CommentLine) :
    ofGroup lead group =
        (MarkedLine.segments (MarkedLine.ofGroup lead group)).map (fun segment => segment.toExample.normalize) ∧
      (∀ text marker, Marker.ofLine? lead text = some marker ↔ Marker.Marks lead text marker) ∧
      (MarkedLine.segments (MarkedLine.ofGroup lead group)).flatMap Segment.lines =
        (MarkedLine.ofGroup lead group).dropWhile (!·.isInput) ∧
      (∀ segment ∈ MarkedLine.segments (MarkedLine.ofGroup lead group),
        ∀ marked ∈ segment.rest, marked.isInput = false) ∧
      (ofGroup lead group).length = group.countP fun line => Marker.opens lead line.text := by
  refine ⟨ofGroup_segments group, fun _ _ => Marker.ofLine_eq_some_iff, MarkedLine.segments_flatten _,
    MarkedLine.segments_rest _, ?_⟩
  rw [ofGroup_segments, List.length_map, MarkedLine.segments_length]

end Example

/-! ## Lines of an example -/

namespace MarkedLine

variable {lead : List Char} {group : List CommentLine}

theorem ofGroup_lines (lead : List Char) (group : List CommentLine) :
    ((ofGroup lead group).map (·.line)).Sublist group := by
  induction group with
  | nil => exact List.Sublist.slnil
  | cons line rest ih =>
      rw [ofGroup_cons]
      cases Marker.ofLine? lead line.text with
      | none => exact ih.cons line
      | some marker => exact ih.cons_cons line

theorem marker_of_mem {marked : MarkedLine} (member : marked ∈ ofGroup lead group) :
    Marker.ofLine? lead marked.line.text = some marked.marker := by
  obtain ⟨line, _, found⟩ := List.mem_filterMap.mp member
  obtain ⟨marker, said, rfl⟩ := Option.map_eq_some_iff.mp found
  exact said

theorem segment_infix {lines : List MarkedLine} {segment : Segment} (member : segment ∈ segments lines) :
    segment.lines <:+: lines := by
  induction lines with
  | nil => cases member
  | cons marked later ih =>
      obtain ⟨marker, line⟩ := marked
      cases marker with
      | input body =>
          rcases List.mem_cons.mp member with rfl | inLater
          · exact (List.prefix_cons_inj _ |>.mpr (List.takeWhile_prefix _)).isInfix
          · exact (ih inLater).trans (List.suffix_cons _ later).isInfix
      | _ => exact (ih member).trans (List.suffix_cons _ later).isInfix

end MarkedLine

theorem Segment.lines_of_answer {segment : Segment} {answer : Passage} (found : segment.answer? = some answer) :
    ∃ later, segment.lines = ⟨.input segment.body, segment.opener⟩ ::
      (segment.question.more ++ ⟨.plain answer.body, answer.first⟩ :: later) := by
  have run := List.takeWhile_append_dropWhile (p := (·.isContinuation)) (l := segment.rest)
  unfold answer? at found
  split at found
  · next body first later behind =>
      split at found
      · cases found
      · cases found
        rw [behind] at run
        exact ⟨later, by rw [lines, question, run]⟩
  · cases found

/-- The last line of an input comes before the line that the expected result begins on. -/
theorem Segment.question_before {segment : Segment} {answer : Passage} (found : segment.answer? = some answer) :
    [segment.question.last, answer.first].Sublist (segment.lines.map (·.line)) := by
  obtain ⟨later, whole⟩ := lines_of_answer found
  have last : [segment.question.last].Sublist (segment.opener :: segment.question.more.map (·.line)) :=
    List.singleton_sublist.mpr List.getLastD_mem_cons
  have first : [answer.first].Sublist (answer.first :: later.map (·.line)) :=
    List.singleton_sublist.mpr List.mem_cons_self
  rw [whole]
  simpa using last.append first

/-- A plain line is what stands behind its beginning and the blanks there. -/
theorem Marker.plain_of_line {lead text body : List Char} (said : ofLine? lead text = some (.plain body)) :
    '\n' ∉ body ∧ body <:+ text := by
  obtain ⟨blanks, _, rfl, _, _, unbroken, spells⟩ := marks_of_ofLine said
  cases spells
  exact ⟨unbroken, (List.suffix_append _ _).trans (List.suffix_append _ _)⟩

theorem Text.head_joinLines {line : List Char} (unbroken : '\n' ∉ line) (more : List (List Char)) :
    (lines (joinLines (line :: more))).head? = some line := by
  cases more with
  | nil =>
      have alone : lines line = [line] := split_of_not_mem unbroken
      exact congrArg List.head? alone
  | cons second others =>
      have joined : lines (joinLines (line :: second :: others)) = lines line ++ lines (joinLines (second :: others)) :=
        split_append '\n' line _
      have alone : lines line = [line] := split_of_not_mem unbroken
      rw [joined, alone]
      rfl

namespace Example

@[simp] theorem normalize_input (e : Example) : e.normalize.input = e.input := by
  unfold normalize
  split
  · rfl
  · split <;> rfl

/-- The expected result is the text `written`, or the expression for the error that this is the shorthand for. -/
def Writes (e : Example) (output : Fragment) (written : List Char) : Prop :=
  output.value = ((ErrorSpec.ofText? written).map (·.expression)).getD written ∧
    e.negate = (ErrorSpec.ofText? written).isSome

theorem normalize_writes {e : Example} {output : Fragment} (isOutput : e.normalize.output = some output) :
    ∃ written, e.output = some ⟨written, output.span⟩ ∧ e.normalize.Writes output written := by
  unfold normalize at isOutput ⊢
  cases found : e.output with
  | none => simp [found] at isOutput
  | some fragment =>
      cases spec : ErrorSpec.ofText? fragment.value with
      | none =>
          simp only [found, spec] at isOutput ⊢
          obtain rfl := Option.some.inj isOutput
          exact ⟨fragment.value, rfl, by simp [Writes, spec]⟩
      | some error =>
          simp only [found, spec] at isOutput ⊢
          obtain rfl := Option.some.inj isOutput
          exact ⟨fragment.value, rfl, by simp [Writes, spec]⟩

/-- An expected result begins on a line behind those of the input. -/
theorem exists_answer {lead : List Char} {group : List CommentLine} {e : Example} {output : Fragment}
    (member : e ∈ ofGroup lead group) (isOutput : e.output = some output) :
    ∃ asked answered body written, [asked, answered].Sublist group ∧
      e.input.span.stop = asked.span.stop ∧ output.span.start = answered.span.start ∧
      Marker.ofLine? lead answered.text = some (.plain body) ∧ (Text.lines written).head? = some body ∧
      e.Writes output written := by
  rw [ofGroup_segments] at member
  obtain ⟨segment, isSegment, rfl⟩ := List.mem_map.mp member
  obtain ⟨written, raw, writes⟩ := normalize_writes isOutput
  obtain ⟨answer, found, fragment⟩ := Option.map_eq_some_iff.mp raw
  have within := MarkedLine.segment_infix isSegment
  have answering : Marker.ofLine? lead answer.first.text = some (.plain answer.body) := by
    obtain ⟨later, whole⟩ := Segment.lines_of_answer found
    have inside : ⟨.plain answer.body, answer.first⟩ ∈ segment.lines := by simp [whole]
    exact MarkedLine.marker_of_mem (within.mem inside)
  have ordered := ((Segment.question_before found).trans (within.sublist.map _)).trans
    (MarkedLine.ofGroup_lines lead group)
  refine ⟨segment.question.last, answer.first, answer.body, written, ordered, ?_, ?_, answering, ?_, writes⟩
  · rw [normalize_input]
    rfl
  · have spans := congrArg (·.span.start) fragment
    exact spans.symm
  · have values : Text.joinLines (answer.body :: answer.more.map (·.marker.body)) = written :=
      congrArg (·.value) fragment
    rw [← values]
    exact Text.head_joinLines (Marker.plain_of_line answering).1 _

end Example

end Exemplar
