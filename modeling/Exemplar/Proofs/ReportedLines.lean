import Exemplar.Proofs.CommentGrammar
import Exemplar.Proofs.LineEnds
import Exemplar.Proofs.LinePlaces
import Exemplar.Proofs.LiterateStrings

/-!
# Reported lines

The line that is reported for an expected result is the line of the file that it begins on. Line ends are unified and
the interpreter's line is emptied before comments are looked for, and neither moves a line. The code of an example
carries this number, wherever the code ends up.
-/

namespace Exemplar

namespace Text

/-- The lines of a file. A line ends with a line feed, a carriage return or both. -/
def fileLines : List Char → List (List Char)
  | [] => [[]]
  | '\r' :: '\n' :: rest => [] :: fileLines rest
  | c :: rest =>
      if c = '\r' ∨ c = '\n' then [] :: fileLines rest
      else (fileLines rest).modifyHead (c :: ·)

/-- The line of a file with the given number, counted from one. -/
def IsLine (source : List Char) (number : Nat) (line : List Char) : Prop :=
  ∃ index, number = index + 1 ∧ (fileLines source)[index]? = some line

theorem split_cons_other {separator c : Char} (other : c ≠ separator) (rest : List Char) :
    split separator (c :: rest) = (split separator rest).modifyHead (c :: ·) := by
  rw [split, if_neg other]
  cases cut : split separator rest with
  | nil => exact absurd cut (split_ne_nil separator rest)
  | cons field more => rfl

theorem lines_unifyBreaks (source : List Char) : lines (Instrument.unifyBreaks source) = fileLines source := by
  fun_induction fileLines source with
  | case1 => rfl
  | case2 rest ih => exact congrArg ([] :: ·) ih
  | case3 c rest single isBreak ih =>
      have unified : Instrument.unifyBreaks (c :: rest) = '\n' :: Instrument.unifyBreaks rest := by
        rcases isBreak with rfl | rfl
        · rw [Instrument.unifyBreaks, if_pos rfl]
          simpa using single
        · rw [Instrument.unifyBreaks, if_neg (by decide)]
          simp
      rw [unified]
      exact congrArg ([] :: ·) ih
  | case4 c rest single noBreak ih =>
      rw [not_or] at noBreak
      have unified : Instrument.unifyBreaks (c :: rest) = c :: Instrument.unifyBreaks rest := by
        rw [Instrument.unifyBreaks, if_neg noBreak.1]
        simpa using single
      rw [unified, ← ih]
      exact split_cons_other noBreak.2 _

/-- Emptying the interpreter's line leaves the lines behind it. -/
theorem lines_dropInterpreter (text : List Char) :
    (lines (Instrument.dropInterpreter text)).tail = (lines text).tail := by
  unfold Instrument.dropInterpreter
  split
  · next rest =>
      have parts := List.takeWhile_append_dropWhile (p := (· != '\n')) (l := rest)
      have unbroken : '\n' ∉ '#' :: '!' :: rest.takeWhile (· != '\n') := by
        intro inside
        simp only [List.mem_cons, Char.reduceEq, false_or] at inside
        simpa using List.mem_takeWhile_imp inside
      obtain ⟨after, isAfter⟩ : ∃ after, after = rest.dropWhile (· != '\n') := ⟨_, rfl⟩
      rw [← isAfter] at parts ⊢
      cases after with
      | nil =>
          rw [List.append_nil] at parts
          rw [parts] at unbroken
          have alone : lines ('#' :: '!' :: rest) = ['#' :: '!' :: rest] := split_of_not_mem unbroken
          rw [alone]
          rfl
      | cons c more =>
          obtain rfl : c = '\n' := by
            have stops := List.head?_dropWhile_not (· != '\n') rest
            rw [← isAfter] at stops
            simpa using stops
          have first : lines ('#' :: '!' :: rest.takeWhile (· != '\n')) = _ := split_of_not_mem unbroken
          have cut : lines ('#' :: '!' :: rest) = lines ('#' :: '!' :: rest.takeWhile (· != '\n')) ++ lines more := by
            conv_lhs => rw [← parts]
            exact split_append '\n' ('#' :: '!' :: rest.takeWhile (· != '\n')) more
          rw [cut, first]
          rfl
  · rfl

/-- Behind the first, the lines that are worked on are those of the file. -/
theorem isLine_of_normalized {source line : List Char} {index : Nat}
    (found : (lines (Instrument.normalize source))[index + 1]? = some line) : IsLine source (index + 2) line := by
  refine ⟨index + 1, rfl, ?_⟩
  rw [← lines_unifyBreaks, ← List.getElem?_tail, ← lines_dropInterpreter, List.getElem?_tail]
  exact found

theorem mem_lines_of_infix {line text : List Char} (unbroken : '\n' ∉ line)
    (inside : '\n' :: (line ++ ['\n']) <:+: text) : line ∈ lines text := by
  obtain ⟨before, after, whole⟩ := inside
  have cut : text = before ++ '\n' :: (line ++ '\n' :: after) := by simp [← whole]
  have pieces : lines text = split '\n' before ++ (split '\n' line ++ split '\n' after) := by
    rw [cut, lines, split_append, split_append]
  rw [pieces, split_of_not_mem unbroken]
  simp

theorem infix_joinLines {line : List Char} {lines : List (List Char)} (member : line ∈ lines) :
    line <:+: joinLines lines := by
  obtain ⟨before, after, rfl⟩ := List.append_of_mem member
  rw [joinLines_append (List.cons_ne_nil _ _), joinLines_cons]
  exact ⟨_, _, List.append_assoc _ _ _⟩

theorem infix_joinLines_between (first : List Char) (before : List (List Char)) {line : List Char} (next : List Char)
    (after : List (List Char)) :
    '\n' :: (line ++ ['\n']) <:+: joinLines (first :: (before ++ line :: next :: after)) := by
  rw [joinLines_cons, List.flatMap_append, List.flatMap_cons, List.flatMap_cons]
  exact ⟨first ++ before.flatMap ('\n' :: ·), next ++ after.flatMap ('\n' :: ·), by simp⟩

end Text

/-! ## Comments that carry a line -/

/-- The line comment that ends the line with the given number is the plain line `body`. -/
def Comment.LineCarries (lead text : List Char) (number : Nat) (line body : List Char) : Prop :=
  ∃ c ∈ lines text, ∃ before, c.span.start = ⟨number, before.length⟩ ∧ line = before ++ ';' :: c.text ∧
    body <:+ c.text ∧ Marker.ofLine? lead (dropSemicolons c.text) = some (.plain body)

/-- A line of a block comment begins the line with the given number and is the plain line `body`. -/
def Comment.BlockCarries (lead text : List Char) (number : Nat) (line body : List Char) : Prop :=
  ∃ c ∈ blocks text, ∃ offset part after, number = c.span.start.line + offset ∧
    (Text.lines c.text)[offset]? = some part ∧ line = part ++ after ∧ (after = [] ∨ ['|', '#'] <+: after) ∧
    body <:+ part ∧ Marker.ofLine? lead (dropGutter part) = some (.plain body)

/-- The comment of a literate line is the plain line `body`. -/
def Literate.LineCarries (lead line body : List Char) : Prop :=
  ∃ said, strip? line = some (indent line, said) ∧ said <:+ line ∧ body <:+ said ∧
    Marker.ofLine? lead said = some (.plain body)

/-- An expected result is reported on the line of the file whose comment is its first line, as it was written. -/
def Example.Reported (source : List Char) (carries : Nat → List Char → List Char → Prop) (e : Example)
    (output : Fragment) : Prop :=
  ∃ line body written, Text.IsLine source output.span.start.line line ∧ carries output.span.start.line line body ∧
    (Text.lines written).head? = some body ∧ e.Writes output written

namespace Example

variable {lead source : List Char} {e : Example} {output : Fragment}

theorem reported_inLines (member : e ∈ inLines lead (Instrument.normalize source)) (isOutput : e.output = some output) :
    e.Reported source (Comment.LineCarries lead (Instrument.normalize source)) output := by
  obtain ⟨group, isGroup, found⟩ := List.mem_flatMap.mp member
  obtain ⟨asked, answered, body, written, both, _, starts, said, first, writes⟩ := exists_answer found isOutput
  obtain ⟨question, isQuestion, _, askedSpan⟩ := Comment.mem_lineGroup isGroup (both.subset List.mem_cons_self)
  have isAnswer : answered ∈ group := both.subset (by simp)
  obtain ⟨c, isComment, isText, span⟩ := Comment.mem_lineGroup isGroup isAnswer
  obtain ⟨index, before, place, isLine⟩ := Comment.line_at (Instrument.normalize_noReturn source) isComment
  -- The input stands on an earlier line, so that this is not the interpreter's.
  have later : 0 < index := by
    obtain ⟨asking, _, askedPlace, _⟩ := Comment.line_at (Instrument.normalize_noReturn source) isQuestion
    have below := (Comment.lineGroup_ordered isGroup).sublist both
    rw [List.pairwise_pair, askedSpan, span, askedPlace, place] at below
    exact Nat.zero_lt_of_lt (Nat.lt_of_succ_lt_succ below)
  obtain ⟨index, rfl⟩ := Nat.exists_eq_succ_of_ne_zero (Nat.ne_of_gt later)
  have number : output.span.start.line = index + 2 := by rw [starts, span, place]
  rw [isText] at said
  refine ⟨_, body, written, ?_, ⟨c, isComment, before, ?_, rfl, ?_, said⟩, first, writes⟩
  · rw [number]
    exact Text.isLine_of_normalized isLine
  · rw [number]
    exact place
  · exact (Marker.plain_of_line said).2.trans (Comment.dropSemicolons_suffix _)

theorem reported_inBlocks (member : e ∈ inBlocks lead (Instrument.normalize source))
    (isOutput : e.output = some output) :
    e.Reported source (Comment.BlockCarries lead (Instrument.normalize source)) output := by
  rw [inBlocks_eq_flatMap] at member
  obtain ⟨⟨c, blockIndex⟩, isBlock, found⟩ := List.mem_flatMap.mp member
  obtain ⟨asked, answered, body, written, both, _, starts, said, first, writes⟩ := exists_answer found isOutput
  have isComment : c ∈ Comment.blocks (Instrument.normalize source) := List.fst_mem_of_mem_zipIdx isBlock
  have isQuestion : asked ∈ Comment.blockGroup c blockIndex := both.subset (by simp)
  have isAnswer : answered ∈ Comment.blockGroup c blockIndex := both.subset (by simp)
  obtain ⟨_, _, _, _, askedLine⟩ := Comment.mem_blockGroup isQuestion
  obtain ⟨offset, part, isPart, isText, line⟩ := Comment.mem_blockGroup isAnswer
  have later : 0 < offset := by
    have below := (Comment.blockGroup_ordered c blockIndex).sublist both
    rw [List.pairwise_pair, askedLine, line] at below
    omega
  obtain ⟨offset, rfl⟩ := Nat.exists_eq_succ_of_ne_zero (Nat.ne_of_gt later)
  obtain ⟨numbered, after, isLine, ends⟩ := Comment.block_at isComment isPart
  obtain ⟨above, isAbove⟩ : ∃ above, c.span.start.line = above + 1 := ⟨c.span.start.line - 1, by omega⟩
  have number : output.span.start.line = above + offset + 2 := by
    rw [starts, line, isAbove]
    omega
  rw [isText] at said
  refine ⟨_, body, written, ?_, ⟨c, isComment, offset + 1, part, after, ?_, isPart, rfl, ends, ?_, said⟩, first, writes⟩
  · rw [number]
    refine Text.isLine_of_normalized ?_
    rw [← isLine]
    congr 1
    omega
  · rw [starts, line]
  · exact (Marker.plain_of_line said).2.trans (Comment.dropGutter_suffix _)

end Example

namespace Instrument

variable {lead text : List Char} {chunk : List (List Char × Nat)}

theorem mem_chunkLines {comment : CommentLine} (member : comment ∈ chunkLines chunk) :
    ∃ line number, (line, number) ∈ chunk ∧ Literate.strip? line = some (Literate.indent line, comment.text) ∧
      comment.span.start.line = number := by
  obtain ⟨⟨⟨line, number⟩, index⟩, isItem, stripped⟩ := List.mem_filterMap.mp member
  obtain ⟨⟨indent, said⟩, found, rfl⟩ := Option.map_eq_some_iff.mp stripped
  refine ⟨line, number, List.fst_mem_of_mem_zipIdx isItem, ?_, rfl⟩
  unfold Literate.strip? at found ⊢
  split at found
  · dsimp only at found ⊢
    split at found
    · cases found
    · next unbroken =>
        cases found
        rw [if_neg unbroken]
  · cases found

theorem chunk_infix {lines : List (List Char)} (member : chunk ∈ chunks (lines.zipIdx 1)) :
    chunk <:+: lines.zipIdx 1 := by
  have whole : (chunks (lines.zipIdx 1)).flatten = lines.zipIdx 1 := List.flatten_splitBy _ _
  rw [← whole]
  exact List.infix_of_mem_flatten member

theorem chunkLines_ordered (ordered : chunk.Pairwise (·.2 < ·.2)) :
    (chunkLines chunk).Pairwise fun line next => line.span.start.line < next.span.start.line := by
  have numbered : chunk.zipIdx.Pairwise (·.1.2 < ·.1.2) := by
    rw [← List.zipIdx_map_fst 0 chunk] at ordered
    exact (List.pairwise_map (f := Prod.fst)).mp ordered
  refine numbered.filterMap _ fun item next below comment isComment other isOther => ?_
  obtain ⟨_, _, rfl⟩ := Option.map_eq_some_iff.mp isComment
  obtain ⟨_, _, rfl⟩ := Option.map_eq_some_iff.mp isOther
  exact below

theorem examples_of_run {run : List Char × List Example} {front : List Char} {rest : List (List (List Char × Nat))}
    (member : run ∈ runsFrom lead front rest) : ∃ chunk ∈ rest, run.2 = chunkExamples lead chunk := by
  induction rest generalizing front with
  | nil => cases member
  | cons chunk rest ih =>
      have behind (later : run ∈ runsFrom lead (front ++ (chunkText chunk ++ ['\n'])) rest) :
          ∃ other ∈ chunk :: rest, run.2 = chunkExamples lead other := by
        obtain ⟨other, isOther, same⟩ := ih later
        exact ⟨other, List.mem_cons_of_mem _ isOther, same⟩
      rw [runsFrom] at member
      split at member
      · exact behind member
      · rcases List.mem_cons.mp member with rfl | later
        · exact ⟨chunk, List.mem_cons_self, rfl⟩
        · exact behind later

end Instrument

theorem Literate.strip_suffix {line said : List Char} (stripped : strip? line = some (indent line, said)) :
    said <:+ line := by
  have rest : line.dropWhile isIndent <:+ line := List.dropWhile_suffix _
  unfold strip? at stripped
  split at stripped
  · next more begins =>
      dsimp only at stripped
      split at stripped
      · cases stripped
      · cases stripped
        rw [begins] at rest
        exact (List.dropWhile_suffix _).trans ((List.suffix_cons _ more).trans rest)
  · cases stripped

theorem Example.reported_inRuns {lead source : List Char} {run : List Char × List Example} {e : Example}
    {output : Fragment} (isRun : run ∈ Instrument.runs lead (Instrument.normalize source)) (member : e ∈ run.2)
    (isOutput : e.output = some output) : e.Reported source (fun _ => Literate.LineCarries lead) output := by
  obtain ⟨chunk, isChunk, same⟩ := Instrument.examples_of_run isRun
  rw [same] at member
  obtain ⟨asked, answered, body, written, both, _, starts, said, first, writes⟩ := exists_answer member isOutput
  have isAnswer : answered ∈ Instrument.chunkLines chunk := both.subset (by simp)
  obtain ⟨question, asking, isQuestion, _, askedLine⟩ := Instrument.mem_chunkLines (both.subset List.mem_cons_self)
  obtain ⟨line, number, isLine, stripped, lineNumber⟩ := Instrument.mem_chunkLines isAnswer
  have within := Instrument.chunk_infix isChunk
  have later : asking < number := by
    have ordered := (Comment.zipIdx_ordered _ 1).sublist within.sublist
    have below := (Instrument.chunkLines_ordered ordered).sublist both
    rw [List.pairwise_pair, askedLine, lineNumber] at below
    exact below
  obtain ⟨counted, _⟩ := List.mk_mem_zipIdx_iff_le_and_getElem?_sub.mp (within.mem isQuestion)
  obtain ⟨_, found⟩ := List.mk_mem_zipIdx_iff_le_and_getElem?_sub.mp (within.mem isLine)
  obtain ⟨index, rfl⟩ : ∃ index, number = index + 2 := ⟨number - 2, by omega⟩
  refine ⟨line, body, written, ?_, ⟨answered.text, stripped, Literate.strip_suffix stripped,
    (Marker.plain_of_line said).2, said⟩, first, writes⟩
  rw [starts, lineNumber]
  refine Text.isLine_of_normalized ?_
  have bound := (List.getElem?_eq_some_iff.mp found).1
  rw [Text.lines_dropFinalBreak]
  exact (List.getElem?_append_left bound).trans found

/-! ## Numbers in code -/

namespace Harness

/-- The line of the code for an example that holds the number of the line of its expected result. -/
def lineEntry (width : Nat) (output : Fragment) : List Char :=
  List.replicate width ' ' ++ "  ".toList ++ (":line ".toList ++ Decimal.natDigits output.span.start.line)

theorem lineEntry_plain {width : Nat} {output : Fragment} {c : Char} (member : c ∈ lineEntry width output) :
    c ≠ '\n' ∧ c ≠ '#' := by
  have label : ∀ c ∈ "  :line ".toList, (c != '\n' && c != '#') = true := List.all_eq_true.mp rfl
  have parts : lineEntry width output = List.replicate width ' ' ++ ("  :line ".toList ++
      Decimal.natDigits output.span.start.line) := List.append_assoc _ _ _
  rw [parts, List.mem_append, List.mem_append] at member
  rcases member with blank | inLabel | digit
  · rw [List.eq_of_mem_replicate blank]
    decide
  · simpa using label c inLabel
  · have isDigit := natDigits_isDigit digit
    constructor
    · rintro rfl
      cases isDigit
    · rintro rfl
      cases isDigit

theorem lineEntry_infix (width : Nat) {e : Example} {output : Fragment} (isOutput : e.output = some output)
    (isTest : isDeclaration e.input.value = false) : '\n' :: (lineEntry width output ++ ['\n']) <:+: code width e := by
  have inOutput : '\n' :: (lineEntry width output ++ ['\n']) <:+:
      outputCode (List.replicate width ' ') output e.negate := by
    exact Text.infix_joinLines_between _ [_] _ [_, _, _]
  simp only [code, isTest, isOutput]
  exact inOutput.trans ((List.suffix_cons _ _).trans (List.suffix_append _ _)).isInfix

end Harness

namespace Instrument

variable {lead text : List Char} {e : Example}

theorem code_infix_spliceFrom {examples : List Example} (member : e ∈ examples) (cursor : Position) :
    Harness.code 0 e <:+: spliceFrom text cursor examples := by
  induction examples generalizing cursor with
  | nil => cases member
  | cons first rest ih =>
      rw [spliceFrom]
      rcases List.mem_cons.mp member with rfl | later
      · exact ⟨_, _, List.append_assoc _ _ _⟩
      · exact (ih later _).trans ((List.suffix_append _ _).trans (List.suffix_append _ _)).isInfix

theorem code_infix_spliceBlocks {examples : List Example} {blocks : List (Comment × Nat)} {block : Comment × Nat}
    (member : block ∈ blocks) {code : List Char} (inCode : code ∈ blockCode examples block.2) (cursor : Position) :
    code <:+: spliceBlocks text examples cursor blocks := by
  induction blocks generalizing cursor with
  | nil => cases member
  | cons first rest ih =>
      obtain ⟨found, index⟩ := first
      rw [spliceBlocks]
      rcases List.mem_cons.mp member with rfl | later
      · split
        · next none =>
            rw [none] at inCode
            cases inCode
        · exact (Text.infix_joinLines inCode).trans ⟨_, _, List.append_assoc _ _ _⟩
      · split
        · exact ih later _
        · exact (ih later _).trans ((List.suffix_append _ _).trans (List.suffix_append _ _)).isInfix

/-- The code of an example in a block comment is taken over from the text as it was before line comments were
replaced. -/
theorem code_infix_plain {result : List Char} (member : e ∈ Example.inBlocks lead text)
    (instrumented : plain lead text = .ok result) : Harness.code 0 e <:+: result := by
  have examples : Example.ofGroups lead (Comment.blockGroups (Comment.blocks text)) = Example.inBlocks lead text := rfl
  have some : (Example.inBlocks lead text).isEmpty = false :=
    List.isEmpty_eq_false_iff.mpr (List.ne_nil_of_mem member)
  simp only [plain, examples, some] at instrumented
  split at instrumented
  · next wrong => cases wrong
  · split at instrumented
    · next same =>
        cases instrumented
        have isExample := member
        rw [Example.inBlocks_eq_flatMap] at isExample
        obtain ⟨block, isBlock, found⟩ := List.mem_flatMap.mp isExample
        have inCode : Harness.code 0 e ∈ blockCode (Example.inBlocks lead text) block.2 := by
          rw [Example.blockCode_eq isBlock]
          exact List.mem_map_of_mem found
        have bound : block.2 < (Comment.blocks (spliceLines text (Example.inLines lead text))).length := by
          rw [same]
          exact List.snd_lt_of_mem_zipIdx isBlock
        have isFound := List.mk_mem_zipIdx_iff_getElem?.mpr (List.getElem?_eq_getElem bound)
        exact code_infix_spliceBlocks isFound inCode _
    · cases instrumented

/-- The code of an example in literate text, indented like its first line. -/
theorem code_infix_literate {run : List Char × List Example} (isRun : run ∈ runs lead text) (member : e ∈ run.2) :
    ∃ width, Harness.code width e <:+: literate lead text := by
  obtain ⟨chunk, isChunk, same⟩ := examples_of_run isRun
  rw [same] at member
  have some : chunkExamples lead chunk ≠ [] := List.ne_nil_of_mem member
  refine ⟨width (Text.lines (Text.dropFinalBreak text)) e, ?_⟩
  refine (Text.infix_joinLines (List.mem_flatMap.mpr ⟨chunk, isChunk, ?_⟩)).trans (List.prefix_append _ _).isInfix
  rw [chunkCode_code some]
  exact List.mem_map_of_mem member

end Instrument

/-- Compiling keeps a stretch of text without comment marks. -/
theorem Literate.infix_compile {part text compiled : List Char} (unmarked : '#' ∉ part) (inside : part <:+: text)
    (compiles : compile text = .ok compiled) : part <:+: compiled := by
  obtain ⟨before, after, rfl⟩ := inside
  have kept (mode : Mode) (offset : Nat) : (mode.through offset part).1 = part := by
    clear compiles
    induction part generalizing mode offset with
    | nil => rfl
    | cons c rest ih =>
        rw [List.mem_cons, not_or] at unmarked
        rw [Mode.through, ih unmarked.2]
        simp [Mode.plain, Ne.symm unmarked.1]
  rw [compile, List.append_assoc, compileFrom_append, compileFrom_append, kept] at compiles
  generalize compileFrom _ _ after = later at compiles
  cases later with
  | error fault => cases compiles
  | ok rest =>
      cases compiles
      exact ⟨_, _, List.append_assoc _ _ _⟩

namespace Instrument

/-- Every expected result is reported on the line of the file that it begins on, for line comments, block comments and
literate text. The code that replaces the comments of the example holds this number, unless the input is a declaration,
whatever is replaced before it. -/
theorem expected_lines_reported (lead source : List Char) :
    (∀ e ∈ Example.inLines lead (normalize source), ∀ output ∈ e.output,
      e.Reported source (Comment.LineCarries lead (normalize source)) output ∧
        (Harness.isDeclaration e.input.value = false →
          Harness.lineEntry 0 output ∈
            Text.lines (spliceLines (normalize source) (Example.inLines lead (normalize source))))) ∧
    (∀ e ∈ Example.inBlocks lead (normalize source), ∀ output ∈ e.output,
      e.Reported source (Comment.BlockCarries lead (normalize source)) output ∧
        (Harness.isDeclaration e.input.value = false → ∀ result, program .sx lead source = .ok result →
          Harness.lineEntry 0 output ∈ Text.lines result)) ∧
    ∀ run ∈ runs lead (normalize source), ∀ e ∈ run.2, ∀ output ∈ e.output,
      e.Reported source (fun _ => Literate.LineCarries lead) output ∧
        (Harness.isDeclaration e.input.value = false → ∀ result, program .sxl lead source = .ok result →
          ∃ width, Harness.lineEntry width output ∈ Text.lines result) := by
  have unbroken (width : Nat) (output : Fragment) : '\n' ∉ Harness.lineEntry width output :=
    fun inside => (Harness.lineEntry_plain inside).1 rfl
  refine ⟨fun e member output isOutput => ⟨Example.reported_inLines member isOutput, fun isTest => ?_⟩,
    fun e member output isOutput => ⟨Example.reported_inBlocks member isOutput, fun isTest result instrumented => ?_⟩,
    fun run isRun e member output isOutput =>
      ⟨Example.reported_inRuns isRun member isOutput, fun isTest result instrumented => ?_⟩⟩
  · exact Text.mem_lines_of_infix (unbroken 0 output)
      ((Harness.lineEntry_infix 0 isOutput isTest).trans (code_infix_spliceFrom member _))
  · exact Text.mem_lines_of_infix (unbroken 0 output)
      ((Harness.lineEntry_infix 0 isOutput isTest).trans (code_infix_plain member instrumented))
  · obtain ⟨width, inText⟩ := code_infix_literate isRun member
    have compiles : Literate.compile (literate lead (normalize source)) = .ok result := by
      change (Literate.compile (literate lead (normalize source))).mapError _ = .ok result at instrumented
      cases compiled : Literate.compile (literate lead (normalize source)) with
      | error fault =>
          rw [compiled] at instrumented
          cases instrumented
      | ok text =>
          rw [compiled] at instrumented
          exact congrArg Except.ok (Except.ok.inj instrumented)
    have unmarked : '#' ∉ '\n' :: (Harness.lineEntry width output ++ ['\n']) := by
      simpa using fun inside => (Harness.lineEntry_plain inside).2 rfl
    exact ⟨width, Text.mem_lines_of_infix (unbroken width output) (Literate.infix_compile unmarked
      ((Harness.lineEntry_infix width isOutput isTest).trans inText) compiles)⟩

/-- Line ends of all three kinds behind an interpreter's line. -/
theorem expected_lines_reported_mixed :
    ∃ source : List Char, source = "#! sx\r\n; > 1\r; 1\n#| > 2\r\n * ! Error |#\n".toList ∧
      (Example.inLines [] (normalize source)).map (·.output.map (·.span.start.line)) = [some 3] ∧
      (Example.inBlocks [] (normalize source)).map (·.output.map (·.span.start.line)) = [some 5] ∧
      ∀ e ∈ Example.inBlocks [] (normalize source), ∀ output ∈ e.output,
        e.Reported source (Comment.BlockCarries [] (normalize source)) output :=
  ⟨_, rfl, by decide, by decide, fun e member output isOutput =>
    ((expected_lines_reported [] _).2.1 e member output isOutput).1⟩

end Instrument

end Exemplar
