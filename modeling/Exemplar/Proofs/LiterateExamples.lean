import Exemplar.Proofs.CodeLexemes
import Exemplar.Proofs.Insertion
import Exemplar.Proofs.KeptCode
import Exemplar.Proofs.LiterateText
import Mathlib.Data.List.SplitBy

/-!
# Examples in literate text

A run of comment lines that holds examples is replaced by their code before the text is compiled. When no run begins in
a string, the compiled text is the one without examples with the runs replaced, so its forms are kept, and those of the
examples stand at the places of their runs.
-/

namespace Exemplar

open Reader

/-! ## Runs of comment lines as lexemes -/

namespace Lexeme

variable {lexemes : List Lexeme}

theorem exists_space {c : Char} {rest : List Char} (leads : Leads [] lexemes)
    (begins : hashTexts lexemes = c :: rest) (space : Reader.isSpace c = true) :
    ∃ more, lexemes = mark c :: more ∧ hashTexts more = rest := by
  cases lexemes with
  | nil => cases begins
  | cons lexeme more =>
      rw [hashTexts_cons] at begins
      cases lexeme with
      | mark d =>
          obtain ⟨rfl, same⟩ := List.cons.inj begins
          exact ⟨more, rfl, same⟩
      | word characters =>
          obtain ⟨d, others, same, noSpace⟩ := leads.1.head_not_space rfl
          rw [hashText, same] at begins
          · rw [(List.cons.inj begins).1, space] at noSpace
            cases noSpace
          · simp
      | _ =>
          obtain ⟨rfl, _⟩ := List.cons.inj begins
          cases space

theorem exists_hash {line rest : List Char} (leads : Leads [] lexemes)
    (literate : ∀ lexeme ∈ lexemes, lexeme.isLiterate = true) (begins : hashTexts lexemes = '#' :: (line ++ rest))
    (unbroken : ∀ c ∈ line, isLineBreak c = false) (breaks : ∀ c ∈ rest.head?, isLineBreak c = true) :
    ∃ more, lexemes = Lexeme.line line :: more ∧ hashTexts more = rest := by
  cases lexemes with
  | nil => cases begins
  | cons lexeme more =>
      rw [hashTexts_cons] at begins
      have literateHere := literate lexeme (by simp)
      cases lexeme with
      | line body =>
          have same : body ++ hashTexts more = line ++ rest := (List.cons.inj begins).2
          obtain ⟨opens, leadsMore⟩ := leads
          rw [List.append_nil] at opens
          have breaksMore := (endsBefore_hashTexts leadsMore).mpr opens.endsBefore
          -- Both bodies are what the text has before its first line break.
          have isBody := (takeWhile_append_iff (!isLineBreak ·) body (hashTexts more)).mpr
            ⟨by simpa using (opens_line.mp opens).1, fun c member => by simp [breaksMore c member]⟩
          have isLine := (takeWhile_append_iff (!isLineBreak ·) line rest).mpr
            ⟨by simpa using unbroken, fun c member => by simp [breaks c member]⟩
          obtain rfl : body = line := by rw [isBody, same, ← isLine]
          exact ⟨more, rfl, List.append_cancel_left same⟩
      | word characters =>
          obtain ⟨nonempty, symbols, _⟩ := opens_word.mp leads.1
          obtain ⟨c, others, rfl⟩ := List.exists_cons_of_ne_nil nonempty
          have symbol := symbols c (by simp)
          rw [(List.cons.inj begins).1] at symbol
          exact absurd symbol (by decide)
      | mark c =>
          rw [(List.cons.inj begins).1] at literateHere
          cases literateHere
      | string body => exact absurd (List.cons.inj begins).1 (by decide)
      | block body => cases literateHere

/-- A comment line before the end of a line is blanks and a comment. -/
theorem exists_commentLine {line rest : List Char} (leads : Leads [] lexemes)
    (literate : ∀ lexeme ∈ lexemes, lexeme.isLiterate = true) (begins : hashTexts lexemes = line ++ rest)
    (isComment : Literate.isCommentLine line = true)
    (unbroken : ∀ c ∈ line, isLineBreak c = false) (breaks : ∀ c ∈ rest.head?, isLineBreak c = true) :
    ∃ region after, lexemes = region ++ after ∧ hashTexts region = line ∧ hashTexts after = rest ∧
      ∀ lexeme ∈ region, lexeme.isTrivia = true := by
  induction line generalizing lexemes with
  | nil => cases isComment
  | cons c line ih =>
      cases blank : Literate.isIndent c with
      | true =>
          have space : Reader.isSpace c = true := by
            simp only [Literate.isIndent, Bool.or_eq_true, beq_iff_eq] at blank
            rcases blank with rfl | rfl <;> rfl
          obtain ⟨more, rfl, same⟩ := exists_space leads begins space
          have later : Literate.isCommentLine line = true := by
            simpa [Literate.isCommentLine, blank] using isComment
          obtain ⟨region, after, rfl, isLine, isRest, trivia⟩ :=
            ih leads.2 (fun other member => literate other (by simp [member])) same later
              fun d member => unbroken d (by simp [member])
          exact ⟨mark c :: region, after, rfl, by rw [hashTexts_cons, isLine]; rfl, isRest,
            List.forall_mem_cons.mpr ⟨space, trivia⟩⟩
      | false =>
          obtain rfl : c = '#' := by
            unfold Literate.isCommentLine at isComment
            rw [List.dropWhile_cons_of_neg (by simp [blank])] at isComment
            split at isComment
            · next same => exact (List.cons.inj same).1
            · cases isComment
          obtain ⟨more, rfl, same⟩ :=
            exists_hash leads literate begins (fun d member => unbroken d (by simp [member])) breaks
          exact ⟨[Lexeme.line line], more, rfl, by simp [hashText], same, by simp [isTrivia]⟩

theorem exists_commentLines {lines : List (List Char)} {rest : List Char} (leads : Leads [] lexemes)
    (literate : ∀ lexeme ∈ lexemes, lexeme.isLiterate = true)
    (begins : hashTexts lexemes = Text.joinLines lines ++ rest)
    (areComments : ∀ line ∈ lines, Literate.isCommentLine line = true)
    (unbroken : ∀ line ∈ lines, ∀ c ∈ line, isLineBreak c = false) (breaks : ∀ c ∈ rest.head?, isLineBreak c = true) :
    ∃ region after, lexemes = region ++ after ∧ hashTexts region = Text.joinLines lines ∧ hashTexts after = rest ∧
      ∀ lexeme ∈ region, lexeme.isTrivia = true := by
  induction lines generalizing lexemes with
  | nil => exact ⟨[], lexemes, rfl, rfl, begins, fun _ member => nomatch member⟩
  | cons line lines ih =>
      have isComment := areComments line (by simp)
      have isLine := unbroken line (by simp)
      cases lines with
      | nil => exact exists_commentLine leads literate begins isComment isLine breaks
      | cons second others =>
          rw [Text.joinLines_cons_cons, List.append_assoc] at begins
          obtain ⟨first, behind, rfl, isFirst, isBehind, triviaFirst⟩ :=
            exists_commentLine leads literate begins isComment isLine (by simp [isLineBreak])
          obtain ⟨more, rfl, same⟩ := exists_space (leads_append.mp leads).2 isBehind rfl
          obtain ⟨region, after, rfl, isRegion, isRest, trivia⟩ := ih (leads_append.mp leads).2.2
            (fun lexeme member => literate lexeme (by simp [member])) same
            (fun other member => areComments other (List.mem_cons_of_mem _ member))
            fun other member => unbroken other (List.mem_cons_of_mem _ member)
          refine ⟨first ++ mark '\n' :: region, after, by simp, ?_, isRest, ?_⟩
          · rw [hashTexts_append, hashTexts_cons, isFirst, isRegion, Text.joinLines_cons_cons]
            rfl
          · exact List.forall_mem_append.mpr ⟨triviaFirst, List.forall_mem_cons.mpr ⟨rfl, trivia⟩⟩

/-- What ends with a line break, or is nothing, ends before everything. -/
theorem endsBefore_of_lineStart {after : List Char} (leads : Leads after lexemes)
    (fresh : hashTexts lexemes = [] ∨ ∃ before, hashTexts lexemes = before ++ ['\n']) (other : List Char) :
    ∀ lexeme ∈ lexemes.getLast?, lexeme.EndsBefore other := by
  intro lexeme member
  obtain ⟨front, rfl⟩ := List.getLast?_eq_some_iff.mp member
  have opens := (leads_append.mp leads).2.1
  obtain ⟨start, d, final⟩ : ∃ start d, lexeme.hashText = start ++ [d] :=
    ⟨_, _, (List.dropLast_concat_getLast opens.hashText_ne_nil).symm⟩
  have whole : hashTexts (front ++ [lexeme]) = (hashTexts front ++ start) ++ [d] := by simp [final]
  obtain rfl : d = '\n' := by
    rcases fresh with empty | ⟨before, ends⟩
    · simp [whole] at empty
    · rw [whole] at ends
      exact (List.cons.inj (List.append_inj' ends rfl).2).1
  have inText : '\n' ∈ lexeme.hashText := by simp [final]
  cases lexeme with
  | line body => exact absurd ((opens_line.mp opens).1 '\n' (by simpa [hashText] using inText)) (by decide)
  | word characters => exact absurd ((opens_word.mp opens).2.1 '\n' inText) (by decide)
  | _ => trivial

/-- Literate text can be cut at the beginning of every line at which no string is open. -/
theorem exists_lineStart {text compiled front rest : List Char} (compiles : Literate.compile text = .ok compiled)
    (hides : Literate.Mode.code.HidesSemicolons 0 text) (split : text = front ++ rest)
    (fresh : front = [] ∨ ∃ before, front = before ++ ['\n'])
    (unquoted : (Literate.Mode.code.through 0 front).2.isString = false) :
    ∃ left right, all compiled = left ++ right ∧ hashTexts left = front ∧ hashTexts right = rest := by
  subst split
  have code := Literate.code_of_lineStart fresh unquoted
  have compileFront : Literate.compileFrom .code 0 (front ++ []) =
      .ok ((Literate.Mode.code.through 0 front).1 ++ []) := by
    rw [Literate.compileFrom_append, code]
    rfl
  rw [List.append_nil] at compileFront
  have hidesRest := hides.suffix
  rw [code] at hidesRest
  cases later : Literate.compileFrom .code (0 + Text.byteLength front) rest with
  | error fault =>
      rw [Literate.compile, Literate.compileFrom_append, code, later] at compiles
      cases compiles
  | ok compiledRest =>
      obtain ⟨left, leadsLeft, literateLeft, rfl⟩ := exists_row compileFront hides.front
      obtain ⟨right, leadsRight, literateRight, rfl⟩ := exists_row later hidesRest
      refine ⟨left, right, all_of_compile ?_ ?_ (by rw [hashTexts_append, compiles]), rfl, rfl⟩
      · refine leads_append.mpr ⟨leadsLeft.change (fun l member => not_stray_of_isLiterate (literateLeft l member)) ?_,
          leadsRight⟩
        exact endsBefore_of_lineStart leadsLeft fresh _
      · exact List.forall_mem_append.mpr ⟨literateLeft, literateRight⟩

/-- Of two cuts of a row the one with more text before it has more lexemes before it. -/
theorem exists_between {passed left right : List Lexeme} {more : List Char} (leads : Leads [] (passed ++ lexemes))
    (cut : passed ++ lexemes = left ++ right) (longer : hashTexts left = hashTexts passed ++ more) :
    ∃ between, lexemes = between ++ right ∧ hashTexts between = more := by
  rcases List.append_eq_append_iff.mp cut with ⟨between, rfl, same⟩ | ⟨between, rfl, same⟩
  · rw [hashTexts_append] at longer
    exact ⟨between, same, List.append_cancel_left longer⟩
  · cases between with
    | nil =>
        rw [List.append_nil] at longer
        exact ⟨[], same.symm, (List.self_eq_append_right.mp longer).symm⟩
    | cons lexeme others =>
        have opens := (leads_append.mp (leads_append.mp leads).1).2.1
        simp [opens.hashText_ne_nil] at longer

end Lexeme

theorem Lexeme.isLiterate_of_uncommented {lexeme : Lexeme} (uncommented : lexeme.isComment = false)
    (closed : lexeme.isStray = false) : lexeme.isLiterate = true ∧ lexeme.hashText = lexeme.text := by
  cases lexeme with
  | block body => cases uncommented
  | line body => cases uncommented
  | mark c => exact ⟨by simp [isLiterate, closed], rfl⟩
  | _ => exact ⟨rfl, rfl⟩

/-! ## Lines cut into chunks -/

namespace Text

theorem joinLines_cons (line : List Char) (lines : List (List Char)) :
    joinLines (line :: lines) = line ++ lines.flatMap ('\n' :: ·) := by
  induction lines generalizing line with
  | nil => simp [joinLines, join]
  | cons second others ih =>
      rw [joinLines_cons_cons, ih]
      rfl

theorem joinLines_flatMap {α : Type} (lines : α → List (List Char)) {items : List α}
    (nonempty : ∀ item ∈ items, lines item ≠ []) :
    joinLines (items.flatMap lines) = joinLines (items.map fun item => joinLines (lines item)) := by
  have behind {items : List α} (nonempty : ∀ item ∈ items, lines item ≠ []) :
      (items.flatMap lines).flatMap ('\n' :: ·) =
        (items.map fun item => joinLines (lines item)).flatMap ('\n' :: ·) := by
    induction items with
    | nil => rfl
    | cons item rest ih =>
        obtain ⟨line, others, same⟩ := List.exists_cons_of_ne_nil (nonempty item (by simp))
        rw [List.flatMap_cons, List.flatMap_append, ih fun other member => nonempty other (by simp [member]),
          List.map_cons, List.flatMap_cons, same, joinLines_cons]
        rfl
  cases items with
  | nil => rfl
  | cons item rest =>
      obtain ⟨line, others, same⟩ := List.exists_cons_of_ne_nil (nonempty item (by simp))
      rw [List.flatMap_cons, List.map_cons, same, List.cons_append, joinLines_cons, joinLines_cons, joinLines_cons,
        List.flatMap_append, behind fun other member => nonempty other (by simp [member]), List.append_assoc]

theorem dropFinalBreak_append (text : List Char) :
    dropFinalBreak text ++ (if text.getLast? = some '\n' then ['\n'] else []) = text := by
  unfold dropFinalBreak
  split
  · next final =>
      obtain ⟨front, rfl⟩ := List.getLast?_eq_some_iff.mp final
      rw [List.dropLast_concat]
  · rw [List.append_nil]

/-- Behind a final line feed stands one more line, which is empty. -/
theorem lines_dropFinalBreak (text : List Char) :
    lines text = lines (dropFinalBreak text) ++ (if text.getLast? = some '\n' then [[]] else []) := by
  conv_lhs => rw [← dropFinalBreak_append text]
  split
  · exact split_append _ _ _
  · rw [List.append_nil, List.append_nil]

end Text

theorem Literate.isCommentLine_of_commentLine {index number : Nat} {line : List Char} {comment : CommentLine}
    (stripped : commentLine? index number line = some comment) : isCommentLine line = true := by
  obtain ⟨parts, found, _⟩ := Option.map_eq_some_iff.mp stripped
  unfold strip? at found
  unfold isCommentLine
  split at found
  · rfl
  · cases found

namespace Instrument

def chunkText (chunk : List (List Char × Nat)) : List Char := Text.joinLines (chunk.map (·.1))

def chunkExamples (lead : List Char) (chunk : List (List Char × Nat)) : List Example :=
  Example.ofGroup lead (chunkLines chunk)

/-- The runs of comment lines with examples among chunks behind the text `front`: the text before each, and its
examples. -/
def runsFrom (lead front : List Char) : List (List (List Char × Nat)) → List (List Char × List Example)
  | [] => []
  | chunk :: rest =>
      let later := runsFrom lead (front ++ (chunkText chunk ++ ['\n'])) rest
      if chunkExamples lead chunk = [] then later else (front, chunkExamples lead chunk) :: later

/-- The runs of comment lines with examples in literate text: the text before each, and its examples. -/
def runs (lead text : List Char) : List (List Char × List Example) :=
  runsFrom lead [] (chunks ((Text.lines (Text.dropFinalBreak text)).zipIdx 1))

/-- How far the line that opens an example is indented. -/
def width (lines : List (List Char)) (e : Example) : Nat :=
  (Literate.indent ((lines[e.input.span.start.line - 1]?).getD [])).length

variable {lead : List Char} {lines : List (List Char)} {chunk : List (List Char × Nat)}

theorem chunkCode_kept (none : chunkExamples lead chunk = []) :
    Text.joinLines (chunkCode lead lines chunk) = chunkText chunk := by
  have empty : Example.ofGroup lead (chunkLines chunk) = [] := none
  rw [chunkCode, empty]
  rfl

theorem chunkCode_code (some : chunkExamples lead chunk ≠ []) :
    chunkCode lead lines chunk = (chunkExamples lead chunk).map fun e => Harness.code (width lines e) e := by
  rw [chunkCode]
  split
  · next empty => exact absurd empty some
  · rfl

/-- A chunk is some lines of the text, and when it holds examples, comment lines. -/
theorem chunk_lines (member : chunk ∈ chunks (lines.zipIdx 1)) :
    chunk ≠ [] ∧ (∀ line ∈ chunk, line.1 ∈ lines) ∧
      (chunkExamples lead chunk ≠ [] → ∀ line ∈ chunk, Literate.isCommentLine line.1 = true) := by
  have whole : (chunks (lines.zipIdx 1)).flatten = lines.zipIdx 1 := List.flatten_splitBy _ _
  refine ⟨List.ne_nil_of_mem_splitBy member, fun line inside => ?_, fun some line inside => ?_⟩
  · have inLines : line ∈ lines.zipIdx 1 := whole ▸ List.mem_flatten_of_mem member inside
    exact List.fst_mem_of_mem_zipIdx inLines
  · have alike : (chunk.map fun line => Literate.isCommentLine line.1).IsChain (· = ·) :=
      List.isChain_map_of_isChain _ (fun first second same => by simpa using same) (List.isChain_of_mem_splitBy member)
    have same := List.Pairwise.forall_of_forall (fun _ _ => rfl) (List.isChain_iff_pairwise.mp alike)
    obtain ⟨comment, isComment⟩ : ∃ comment, comment ∈ chunkLines chunk := by
      refine List.exists_mem_of_ne_nil _ fun empty => some ?_
      rw [chunkExamples, empty]
      rfl
    obtain ⟨⟨⟨other, number⟩, index⟩, isLine, stripped⟩ := List.mem_filterMap.mp isComment
    have found := List.fst_mem_of_mem_zipIdx isLine
    rw [same (List.mem_map_of_mem inside) (List.mem_map_of_mem found)]
    exact Literate.isCommentLine_of_commentLine stripped

theorem chunk_unbroken {text : List Char} (noReturn : '\r' ∉ text)
    (member : chunk ∈ chunks ((Text.lines (Text.dropFinalBreak text)).zipIdx 1)) :
    ∀ line ∈ chunk, ∀ c ∈ line.1, Lexeme.isLineBreak c = false := by
  intro line inside c within
  have isLine := (@chunk_lines [] _ chunk member).2.1 line inside
  obtain ⟨inText, noBreak⟩ := Text.mem_of_mem_split isLine within
  have inWhole : c ∈ text := by
    rw [← Text.dropFinalBreak_append text]
    exact List.mem_append_left _ inText
  cases isBreak : Lexeme.isLineBreak c with
  | false => rfl
  | true => exact absurd (Lexeme.break_of_noReturn noReturn inWhole isBreak) noBreak

theorem chunkCode_ne_nil (nonempty : chunk ≠ []) : chunkCode lead lines chunk ≠ [] := by
  by_cases none : Example.ofGroup lead (chunkLines chunk) = []
  · rw [chunkCode, none]
    simpa using nonempty
  · rw [chunkCode_code none, ne_eq, List.map_eq_nil_iff]
    exact none

/-- Literate text consists of its chunks, and instrumented text of the code for them. -/
theorem literate_chunks (lead text : List Char) :
    ∃ lines first rest final, chunks (lines.zipIdx 1) = first :: rest ∧
      lines = Text.lines (Text.dropFinalBreak text) ∧ final = (if text.getLast? = some '\n' then ['\n'] else []) ∧
      text = chunkText first ++ (rest.flatMap (fun chunk => '\n' :: chunkText chunk) ++ final) ∧
      literate lead text = Text.joinLines (chunkCode lead lines first) ++
        (rest.flatMap (fun chunk => '\n' :: Text.joinLines (chunkCode lead lines chunk)) ++ final) := by
  have ending := Text.dropFinalBreak_append text
  have joined : Text.joinLines (Text.lines (Text.dropFinalBreak text)) = Text.dropFinalBreak text := Text.join_split _ _
  obtain ⟨final, isFinal⟩ : ∃ final, final = if text.getLast? = some '\n' then ['\n'] else [] := ⟨_, rfl⟩
  obtain ⟨lines, isLines⟩ : ∃ lines, lines = Text.lines (Text.dropFinalBreak text) := ⟨_, rfl⟩
  rw [← isLines] at joined
  have nonempty : lines ≠ [] := isLines ▸ Text.split_ne_nil _ _
  obtain ⟨first, rest, cut⟩ : ∃ first rest, chunks (lines.zipIdx 1) = first :: rest :=
    List.exists_cons_of_ne_nil (List.splitBy_ne_nil.mpr (mt List.zipIdx_eq_nil_iff.mp nonempty))
  have proper (chunk : List (List Char × Nat)) (member : chunk ∈ first :: rest) : chunk ≠ [] :=
    (@chunk_lines lead lines chunk (cut ▸ member)).1
  have whole : (first :: rest).flatMap (fun chunk => chunk.map (·.1)) = lines := by
    have flat : (chunks (lines.zipIdx 1)).flatten = lines.zipIdx 1 := List.flatten_splitBy _ _
    rw [List.flatMap_def, ← List.map_flatten, ← cut, flat, List.zipIdx_map_fst]
  have spelled (code : List (List Char × Nat) → List (List Char))
      (some : ∀ chunk ∈ first :: rest, code chunk ≠ []) :
      Text.joinLines ((first :: rest).flatMap code) =
        Text.joinLines (code first) ++ rest.flatMap fun chunk => '\n' :: Text.joinLines (code chunk) := by
    rw [Text.joinLines_flatMap code some, List.map_cons, Text.joinLines_cons, List.flatMap_map]
  refine ⟨lines, first, rest, final, cut, isLines, isFinal, ?_, ?_⟩
  · have kept := spelled (fun chunk => chunk.map (·.1)) fun chunk member => by simpa using proper chunk member
    rw [whole, joined] at kept
    rw [← List.append_assoc, isFinal]
    exact ending.symm.trans (congrArg (· ++ _) kept)
  · have replaced := spelled (chunkCode lead lines) fun chunk member => chunkCode_ne_nil (proper chunk member)
    rw [← List.append_assoc, ← replaced, literate, ← isLines, cut, isFinal]

/-! ## Runs replaced by code -/

/-- The row `result` spells `text` and is `lexemes`, which start at the byte `offset`, with code inserted. -/
structure Rewritten (offset : Nat) (lexemes : List Lexeme) (inserted : List (Nat × List Form)) (text : List Char)
    (result : List Lexeme) : Prop where
  leads : Lexeme.Leads [] result
  literate : ∀ lexeme ∈ result, lexeme.isLiterate = true
  spelled : Lexeme.hashTexts result = text
  inserted : Inserted offset lexemes inserted (Lexeme.texts result)

/-- The examples of a run are programs without comments. -/
def Plain (examples : List Example) : Prop :=
  ∀ e ∈ examples, Harness.Readable e ∧ Harness.Uncommented e

theorem codes_literate {examples : List Example} (plain : Plain examples) (width : Example → Nat) :
    (∀ lexeme ∈ Lexeme.all (Text.joinLines (examples.map fun e => Harness.code (width e) e)),
        lexeme.isLiterate = true) ∧
      Lexeme.hashTexts (Lexeme.all (Text.joinLines (examples.map fun e => Harness.code (width e) e))) =
        Text.joinLines (examples.map fun e => Harness.code (width e) e) := by
  have closed := Form.closed_of_read (Harness.codes_read width fun e member => (plain e member).1)
  have uncommented : ∀ lexeme ∈ Lexeme.all (Text.joinLines (examples.map fun e => Harness.code (width e) e)),
      lexeme.isComment = false :=
    Lexeme.forall_joinLines
      (List.forall_mem_map.mpr fun e member =>
        Form.closed_of_read (Harness.code_reads (width e) (plain e member).1)) rfl
      (List.forall_mem_map.mpr fun e member =>
        Harness.code_uncommented (width e) (plain e member).1 (plain e member).2)
  have same := Lexeme.texts_all (Text.joinLines (examples.map fun e => Harness.code (width e) e))
  refine ⟨fun lexeme member => (Lexeme.isLiterate_of_uncommented (uncommented lexeme member) (closed lexeme member)).1,
    Eq.trans (List.flatMap_congr fun lexeme member => ?_) same⟩
  exact (Lexeme.isLiterate_of_uncommented (uncommented lexeme member) (closed lexeme member)).2

variable {before right : List Lexeme} {offset : Nat} {inserted : List (Nat × List Form)} {behind behind' : List Char}

/-- A chunk with examples behind the lexemes `before` is replaced; `later` replaces what stands behind the chunk. -/
theorem exists_run (leads : Lexeme.Leads [] (before ++ right))
    (literate : ∀ lexeme ∈ before ++ right, lexeme.isLiterate = true)
    (fresh : Lexeme.hashTexts before = [] ∨ ∃ front, Lexeme.hashTexts before = front ++ ['\n'])
    (spelled : Lexeme.hashTexts right = chunkText chunk ++ behind)
    (areComments : ∀ line ∈ chunk, Literate.isCommentLine line.1 = true)
    (unbroken : ∀ line ∈ chunk, ∀ c ∈ line.1, Lexeme.isLineBreak c = false)
    (breaks : ∀ c ∈ behind.head?, Lexeme.isLineBreak c = true)
    (breaks' : ∀ c ∈ behind'.head?, Lexeme.isLineBreak c = true)
    (some : chunkExamples lead chunk ≠ []) (plain : Plain (chunkExamples lead chunk))
    (later : ∀ region after, right = region ++ after → Lexeme.hashTexts region = chunkText chunk →
      Lexeme.hashTexts after = behind →
      ∃ result, Rewritten (offset + Text.byteLength (Lexeme.texts (before ++ region))) after inserted behind' result) :
    ∃ result, Rewritten offset (before ++ right)
      ((offset + Text.byteLength (Lexeme.texts before), (chunkExamples lead chunk).flatMap Harness.forms) :: inserted)
      (Lexeme.hashTexts before ++ (Text.joinLines (chunkCode lead lines chunk) ++ behind')) result := by
  obtain ⟨leadsBefore, leadsRight⟩ := Lexeme.leads_append.mp leads
  obtain ⟨literateBefore, literateRight⟩ := List.forall_mem_append.mp literate
  obtain ⟨region, after, rfl, isChunk, isBehind, trivia⟩ := Lexeme.exists_commentLines leadsRight literateRight spelled
    (List.forall_mem_map.mpr areComments) (List.forall_mem_map.mpr unbroken) breaks
  obtain ⟨result, rewritten⟩ := later region after rfl isChunk isBehind
  rw [chunkCode_code some]
  have read := Harness.codes_read (width lines) fun e member => (plain e member).1
  obtain ⟨literateCode, isCode⟩ := codes_literate plain (width lines)
  generalize Text.joinLines ((chunkExamples lead chunk).map fun e => Harness.code (width lines e) e) = code at *
  have breaksResult (lexeme : Lexeme) : lexeme.EndsBefore (Lexeme.texts result) := by
    refine (Lexeme.endsBefore_hashTexts rewritten.leads).mp ?_
    rw [rewritten.spelled]
    exact lexeme.endsBefore_of_break breaks'
  have closed := Form.closed_of_read read
  have ends := Lexeme.endsBefore_of_lineStart leadsBefore fresh
  refine ⟨before ++ (Lexeme.all code ++ result), ?_, ?_, ?_, ?_⟩
  · refine Lexeme.leads_append.mpr ⟨leadsBefore.change
      (fun l member => Lexeme.not_stray_of_isLiterate (literateBefore l member)) (ends _),
      Lexeme.leads_append.mpr ⟨(Lexeme.leads_all code).change closed fun l _ => ?_, rewritten.leads⟩⟩
    rw [List.append_nil]
    exact breaksResult l
  · exact List.forall_mem_append.mpr ⟨literateBefore, List.forall_mem_append.mpr ⟨literateCode, rewritten.literate⟩⟩
  · rw [Lexeme.hashTexts_append, Lexeme.hashTexts_append, isCode, rewritten.spelled]
  · rw [Lexeme.texts_append, Lexeme.texts_append, Lexeme.texts_all]
    refine .cons trivia (ends _) (fun done => ?_) rewritten.inserted
    rw [Lexeme.all_append closed fun l _ => breaksResult l, Outline.steps_append, Form.steps_of_read read]
    rfl

/-- What a run of comment lines in a text with the lexemes `row` must be like to be replaced. -/
structure FittingRun (row : List Lexeme) (run : List Char × List Example) : Prop where
  cut : ∃ left right, row = left ++ right ∧ Lexeme.hashTexts left = run.1
  plain : Plain run.2

/-- The place of a run in bytes, and the forms for its examples. -/
def runForms (run : List Char × List Example) : Nat × List Form :=
  (Text.byteLength run.1, run.2.flatMap Harness.forms)

theorem head_behind {code : List (List Char × Nat) → List Char} {rest : List (List (List Char × Nat))}
    {final : List Char} (isFinal : final = [] ∨ final = ['\n']) :
    ∀ c ∈ (rest.flatMap (fun chunk => '\n' :: code chunk) ++ final).head?, Lexeme.isLineBreak c = true := by
  intro c member
  cases rest with
  | nil =>
      rcases isFinal with rfl | rfl
      · cases member
      · cases member
        rfl
  | cons chunk rest =>
      cases member
      rfl

/-- Behind the lexemes `passed`, the last of which belong to a run that was replaced, `kept` has been passed over
since. The induction goes over the chunks that follow. -/
theorem exists_rewritten {row passed lexemes : List Lexeme} {kept final : List Char}
    {rest : List (List (List Char × Nat))} (leads : Lexeme.Leads [] row)
    (literate : ∀ lexeme ∈ row, lexeme.isLiterate = true) (isFinal : final = [] ∨ final = ['\n'])
    (unbroken : ∀ chunk ∈ rest, ∀ line ∈ chunk, ∀ c ∈ line.1, Lexeme.isLineBreak c = false)
    (areComments : ∀ chunk ∈ rest, chunkExamples lead chunk ≠ [] →
      ∀ line ∈ chunk, Literate.isCommentLine line.1 = true)
    (whole : row = passed ++ lexemes)
    (spelled : Lexeme.hashTexts lexemes = kept ++ (rest.flatMap (fun chunk => '\n' :: chunkText chunk) ++ final))
    (fitting : ∀ run ∈ runsFrom lead (Lexeme.hashTexts passed ++ (kept ++ ['\n'])) rest, FittingRun row run) :
    ∃ result, Rewritten (Text.byteLength (Lexeme.texts passed)) lexemes
      ((runsFrom lead (Lexeme.hashTexts passed ++ (kept ++ ['\n'])) rest).map runForms)
      (kept ++ (rest.flatMap (fun chunk => '\n' :: Text.joinLines (chunkCode lead lines chunk)) ++ final)) result := by
  induction rest generalizing passed lexemes kept with
  | nil =>
      rw [whole] at leads literate
      exact ⟨lexemes, (Lexeme.leads_append.mp leads).2, (List.forall_mem_append.mp literate).2, spelled, .nil⟩
  | cons chunk rest ih =>
      have unbrokenRest := (List.forall_mem_cons.mp unbroken).2
      have commentsRest := (List.forall_mem_cons.mp areComments).2
      by_cases none : chunkExamples lead chunk = []
      · -- A chunk without examples joins what is kept.
        rw [runsFrom, if_pos none] at fitting ⊢
        rw [List.flatMap_cons, chunkCode_kept none]
        have next := @ih passed lexemes (kept ++ '\n' :: chunkText chunk) unbrokenRest commentsRest whole
          (by rw [spelled]; simp) (by simpa using fitting)
        simpa using next
      · -- A run starts a lexeme; the induction goes on behind it with nothing kept.
        rw [runsFrom, if_neg none] at fitting ⊢
        obtain ⟨here, later⟩ := List.forall_mem_cons.mp fitting
        obtain ⟨left, right, cut, isLeft⟩ := here.cut
        rw [whole] at leads cut literate
        obtain ⟨before, rfl, isBefore⟩ := Lexeme.exists_between leads cut isLeft
        have isChunk : Lexeme.hashTexts right =
            chunkText chunk ++ (rest.flatMap (fun chunk => '\n' :: chunkText chunk) ++ final) := by
          rw [Lexeme.hashTexts_append, isBefore] at spelled
          simpa using spelled
        have step := @exists_run lead lines chunk before right (Text.byteLength (Lexeme.texts passed))
          ((runsFrom lead (Lexeme.hashTexts passed ++ (kept ++ ['\n']) ++ (chunkText chunk ++ ['\n'])) rest).map runForms)
          _ (rest.flatMap (fun chunk => '\n' :: Text.joinLines (chunkCode lead lines chunk)) ++ final)
          (Lexeme.leads_append.mp leads).2 (List.forall_mem_append.mp literate).2 (.inr ⟨kept, isBefore⟩) isChunk
          (areComments chunk (by simp) none) (unbroken chunk (by simp)) (head_behind isFinal) (head_behind isFinal) none
          here.plain ?_
        · have place : Text.byteLength (Lexeme.hashTexts passed ++ (kept ++ ['\n'])) =
              Text.byteLength (Lexeme.texts passed) + Text.byteLength (Lexeme.texts before) := by
            rw [← isBefore, Text.byteLength_append, Lexeme.byteLength_hashTexts, Lexeme.byteLength_hashTexts]
          rw [isBefore] at step
          rw [List.map_cons, runForms, place, List.flatMap_cons]
          simpa using step
        · intro region after split isRegion isBehind
          subst split
          have front : Lexeme.hashTexts (passed ++ (before ++ region)) ++ ([] ++ ['\n']) =
              Lexeme.hashTexts passed ++ (kept ++ ['\n']) ++ (chunkText chunk ++ ['\n']) := by
            simp [isBefore, isRegion]
          have next := @ih (passed ++ (before ++ region)) after [] unbrokenRest commentsRest (by simp [whole]) isBehind
          rw [front] at next
          have recurse := next later
          rwa [Lexeme.texts_append, Text.byteLength_append, List.nil_append] at recurse

/-- The text before a run is the beginning of the whole text up to the end of a line. -/
theorem runsFrom_front {run : List Char × List Example} {front : List Char} {rest : List (List (List Char × Nat))}
    (member : run ∈ runsFrom lead front rest) (fresh : front = [] ∨ ∃ before, front = before ++ ['\n']) :
    (run.1 = [] ∨ ∃ before, run.1 = before ++ ['\n']) ∧
      ∃ behind, front ++ Text.joinLines (rest.map chunkText) = run.1 ++ behind := by
  induction rest generalizing front with
  | nil => cases member
  | cons chunk rest ih =>
      have later (member : run ∈ runsFrom lead (front ++ (chunkText chunk ++ ['\n'])) rest) :
          (run.1 = [] ∨ ∃ before, run.1 = before ++ ['\n']) ∧
            ∃ behind, front ++ Text.joinLines ((chunk :: rest).map chunkText) = run.1 ++ behind := by
        obtain ⟨isFresh, behind, same⟩ := ih member (.inr ⟨front ++ chunkText chunk, by simp⟩)
        refine ⟨isFresh, behind, ?_⟩
        cases rest with
        | nil => cases member
        | cons next others =>
            rw [← same]
            simp [Text.joinLines_cons]
      rw [runsFrom] at member
      split at member
      · exact later member
      · rcases List.mem_cons.mp member with rfl | behind
        · exact ⟨fresh, _, rfl⟩
        · exact later behind

/-- The lexemes of literate text with its runs replaced. -/
theorem literate_rewritten {text : List Char} {row : List Lexeme} (leads : Lexeme.Leads [] row)
    (literal : ∀ lexeme ∈ row, lexeme.isLiterate = true) (spelled : Lexeme.hashTexts row = text)
    (noReturn : '\r' ∉ text) (fitting : ∀ run ∈ runs lead text, FittingRun row run) :
    ∃ result, Rewritten 0 row ((runs lead text).map runForms) (literate lead text) result := by
  obtain ⟨lines, first, rest, final, cut, isLines, ending, isText, isCode⟩ := literate_chunks lead text
  have isFinal : final = [] ∨ final = ['\n'] := by
    rw [ending]
    split <;> simp
  have unbroken (chunk : List (List Char × Nat)) (member : chunk ∈ first :: rest) :
      ∀ line ∈ chunk, ∀ c ∈ line.1, Lexeme.isLineBreak c = false := by
    rw [← cut, isLines] at member
    exact chunk_unbroken noReturn member
  have areComments (chunk : List (List Char × Nat)) (member : chunk ∈ first :: rest) :=
    (@chunk_lines lead lines chunk (cut ▸ member)).2.2
  have unbrokenRest := (List.forall_mem_cons.mp unbroken).2
  have commentsRest := (List.forall_mem_cons.mp areComments).2
  rw [runs, ← isLines, cut, runsFrom] at fitting ⊢
  rw [isCode]
  rw [isText] at spelled
  by_cases none : chunkExamples lead first = []
  · rw [if_pos none] at fitting ⊢
    rw [chunkCode_kept none]
    exact @exists_rewritten lead lines row [] row _ final rest leads literal isFinal unbrokenRest commentsRest rfl
      spelled fitting
  · rw [if_neg none] at fitting ⊢
    obtain ⟨here, later⟩ := List.forall_mem_cons.mp fitting
    refine @exists_run lead lines first [] row 0 _ _ _ leads literal (.inl rfl) spelled
      (areComments first (by simp) none) (unbroken first (by simp)) (head_behind isFinal) (head_behind isFinal) none
      here.plain fun region after split isRegion isBehind => ?_
    have recurse := @exists_rewritten lead lines row region after [] final rest leads literal isFinal unbrokenRest
      commentsRest split isBehind
    rw [isRegion] at recurse
    simpa using recurse later

/-- The program behind literate text: every form of the text without examples is kept, in order, and where a run of
comment lines with examples stood are the forms of its examples. -/
theorem program_literate_forms (lead source : List Char) {compiled : List Char} {nodes : List Node}
    (compiles : Literate.compile (normalize source) = .ok compiled)
    (read : Node.read (String.ofList compiled) = .ok nodes)
    (hides : Literate.Mode.code.HidesSemicolons 0 (normalize source))
    (unquoted : ∀ run ∈ runs lead (normalize source), (Literate.Mode.code.through 0 run.1).2.isString = false)
    (outside : ∀ run ∈ runs lead (normalize source), Example.Outside (Text.byteLength run.1) nodes)
    (readable : ∀ run ∈ runs lead (normalize source), ∀ e ∈ run.2, Harness.Readable e)
    (uncommented : ∀ run ∈ runs lead (normalize source), ∀ e ∈ run.2, Harness.Uncommented e) :
    ∃ text, program .sxl lead source = .ok text ∧
      Form.read (String.ofList text) = .ok (Node.formsWith nodes
        ((runs lead (normalize source)).map fun run =>
          (Text.byteLength run.1, run.2.flatMap Harness.forms))) := by
  obtain ⟨row, leads, literal, spelled⟩ := Lexeme.exists_row compiles hides
  have lexed : Lexeme.all compiled = row := Lexeme.all_of_compile leads literal (spelled ▸ compiles)
  have fitting : ∀ run ∈ runs lead (normalize source), FittingRun row run := by
    intro run member
    obtain ⟨lines, first, rest, final, cut, isLines, _, isText, _⟩ := literate_chunks lead (normalize source)
    have inChunks := member
    rw [runs, ← isLines, cut] at inChunks
    obtain ⟨fresh, behind, begins⟩ := runsFrom_front inChunks (.inl rfl)
    have split : normalize source = run.1 ++ (behind ++ final) := by
      rw [← List.append_assoc, ← begins, isText]
      simp [Text.joinLines_cons, List.flatMap_map]
    obtain ⟨left, right, isRow, isFront, _⟩ := Lexeme.exists_lineStart compiles hides split fresh (unquoted run member)
    exact ⟨⟨left, right, lexed ▸ isRow, isFront⟩, fun e inside =>
      ⟨readable run member e inside, uncommented run member e inside⟩⟩
  obtain ⟨result, rewritten⟩ := literate_rewritten leads literal spelled (normalize_noReturn source) fitting
  have compiled' := Lexeme.compileFrom_hashTexts rewritten.leads rewritten.literate 0
  rw [rewritten.spelled] at compiled'
  refine ⟨Lexeme.texts result, ?_, Form.read_inserted read (lexed ▸ rewritten.inserted)
    (List.forall_mem_map.mpr outside) (List.forall_mem_map.mpr fun run member => ?_)⟩
  · have whole : Literate.compile (literate lead (normalize source)) = .ok (Lexeme.texts result) := compiled'
    rw [program, whole]
    rfl
  · exact (Form.read_ok_iff.mp (Harness.codes_read (fun _ => 0) (readable run member))).2

/-- A string over lines that look like comments, then a run of two examples, the second of which is indented and
expects an error with a quote and a comment mark in its message. -/
theorem program_literate_forms_indented :
    ∃ text,
      program .sxl [] "\";\n# b\n\" # ;\n# > (define x)\n # > x\n # ! E: \"#\n'a".toList = .ok text ∧
        Form.read (String.ofList text) =
          .ok [.atom (.string ";\n# b\n"), .group .round [.atom (.symbol "define"), .atom (.symbol "x")],
            Harness.inputForm [.atom (.symbol "x")],
            Harness.outputForm 6 true
              [.group .round [.atom (.symbol "error"), .atom (.string "E"), .atom (.string "\"#")]],
            .quote (.atom (.symbol "a"))] :=
  @program_literate_forms [] "\";\n# b\n\" # ;\n# > (define x)\n # > x\n # ! E: \"#\n'a".toList
    "\";\n# b\n\" ; ;\n; > (define x)\n ; > x\n ; ! E: \"#\n'a".toList _ rfl rfl (by decide) (by decide) (by decide) (by decide)
    (by decide)

end Instrument

end Exemplar
