import Exemplar.Proofs.LiterateExamples

/-!
# Strings in literate text

Runs of comment lines are found line by line, strings by reading the text from its beginning. A run that begins outside
of all strings holds no part of one. So the strings of a text are carried through instrumentation exactly when no line
that is replaced starts inside of one.
-/

namespace Exemplar

namespace Text

/-- Lines in a row, each with its line feed. -/
def rows (lines : List (List Char)) : List Char := lines.flatMap (· ++ ['\n'])

/-- The text before the line with the given number. -/
def beforeLine (text : List Char) (number : Nat) : List Char := rows ((lines text).take (number - 1))

theorem rows_append (left right : List (List Char)) : rows (left ++ right) = rows left ++ rows right := by
  simp [rows]

theorem joinLines_rows {lines : List (List Char)} (nonempty : lines ≠ []) : joinLines lines ++ ['\n'] = rows lines := by
  obtain ⟨line, rest, rfl⟩ := List.exists_cons_of_ne_nil nonempty
  rw [joinLines_cons]
  induction rest generalizing line with
  | nil => simp [rows]
  | cons second others ih =>
      have later := ih second (List.cons_ne_nil _ _)
      simp only [rows, List.flatMap_cons, List.append_assoc] at later ⊢
      rw [List.cons_append, List.cons_append, later]
      rfl

theorem joinLines_append {left right : List (List Char)} (nonempty : right ≠ []) :
    joinLines (left ++ right) = rows left ++ joinLines right := by
  have ended : joinLines (left ++ right) ++ ['\n'] = rows left ++ joinLines right ++ ['\n'] := by
    rw [joinLines_rows (List.append_ne_nil_of_right_ne_nil _ nonempty), rows_append, List.append_assoc,
      joinLines_rows nonempty]
  exact List.append_cancel_right ended

end Text

namespace Literate

/-- Behind `before` stands a string literal that holds `body`, and then `after`. -/
structure IsLiteral (text before body after : List Char) : Prop where
  whole : text = before ++ '"' :: (body ++ '"' :: after)
  opens : (Mode.code.through 0 before).2 = .code
  closes : Text.closeQuote (body ++ '"' :: after) = some (body, after)

/-- Whether the line with the given number starts inside a string literal. -/
def startsInString (text : List Char) (number : Nat) : Bool :=
  (Mode.code.through 0 (Text.beforeLine text number)).2.isString

/-! ## Modes inside strings -/

theorem through_inside {text body after : List Char} (closed : Text.closeQuote text = some (body, after))
    {inner more : List Char} (cut : body = inner ++ more) (start offset : Nat) :
    ((Mode.string start false).through offset inner).2.isString = true := by
  fun_induction Text.closeQuote text generalizing body after inner offset with
  | case1 => cases closed
  | case2 rest =>
      cases closed
      obtain ⟨rfl, -⟩ := List.append_eq_nil_iff.mp cut.symm
      rfl
  | case3 c rest ih =>
      obtain ⟨⟨tail, behind⟩, found, same⟩ := Option.map_eq_some_iff.mp closed
      cases same
      cases inner with
      | nil => rfl
      | cons d others =>
          obtain ⟨rfl, second⟩ := List.cons.inj cut
          cases others with
          | nil => rfl
          | cons e others =>
              obtain ⟨rfl, within⟩ := List.cons.inj second
              exact ih found within _
  | case4 => cases closed
  | case5 c rest noQuote noEscape noEnd ih =>
      obtain ⟨⟨tail, behind⟩, found, same⟩ := Option.map_eq_some_iff.mp closed
      cases same
      cases inner with
      | nil => rfl
      | cons d others =>
          obtain ⟨rfl, within⟩ := List.cons.inj cut
          have noQuote : c ≠ '"' := fun same => noQuote same
          have noBackslash := beq_eq_false_iff_ne.mpr (Text.ne_backslash noEscape noEnd)
          simpa [Mode.through, Mode.next, noQuote, noBackslash] using ih found within _

theorem through_concat (mode : Mode) (offset : Nat) (front : List Char) (c : Char) :
    (mode.through offset (front ++ [c])).2 =
      (mode.through offset front).2.next (offset + Text.byteLength front) c := by
  rw [through_append]
  rfl

/-- Where a string is open it was opened by a quote mark, and has been open since. -/
theorem exists_opening {front : List Char} (inside : (Mode.code.through 0 front).2.isString = true) :
    ∃ before inner, front = before ++ '"' :: inner ∧ (Mode.code.through 0 before).2 = .code ∧
      ∀ left right, inner = left ++ right → (Mode.code.through 0 (before ++ '"' :: left)).2.isString = true := by
  induction front using List.reverseRecOn with
  | nil => cases inside
  | append_singleton front c ih =>
      cases mode : (Mode.code.through 0 front).2 with
      | code =>
          rw [through_concat, mode] at inside
          obtain rfl : c = '"' := by
            by_contra other
            by_cases hash : c = '#' <;> simp [Mode.next, other, hash, Mode.isString] at inside
          refine ⟨front, [], rfl, mode, fun left right cut => ?_⟩
          obtain ⟨rfl, -⟩ := List.append_eq_nil_iff.mp cut.symm
          rw [through_concat, mode]
          exact inside
      | comment =>
          rw [through_concat, mode, Mode.next] at inside
          split at inside <;> cases inside
      | string start escaped =>
          obtain ⟨before, inner, rfl, code, since⟩ := ih (by rw [mode]; rfl)
          refine ⟨before, inner ++ [c], by simp, code, fun left right cut => ?_⟩
          rcases List.eq_nil_or_concat right with rfl | ⟨others, d, rfl⟩
          · rw [List.append_nil] at cut
            subst cut
            simpa using inside
          · rw [List.concat_eq_append, ← List.append_assoc] at cut
            exact since left others (List.append_inj' cut rfl).1

theorem through_opening {before : List Char} (code : (Mode.code.through 0 before).2 = .code) (inner : List Char) :
    (Mode.code.through 0 (before ++ '"' :: inner)).2 =
      ((Mode.string (0 + Text.byteLength before) false).through (0 + Text.byteLength before + '"'.utf8Size) inner).2 := by
  rw [through_append, code]
  rfl

/-- In text that compiles, where a string is open there is a literal around the place. -/
theorem exists_literal {text compiled front rest : List Char} (compiles : compile text = .ok compiled)
    (cut : text = front ++ rest) (inside : (Mode.code.through 0 front).2.isString = true) :
    ∃ before body after, IsLiteral text before body after ∧ before.length < front.length ∧
      front.length < before.length + (body.length + 2) := by
  obtain ⟨before, inner, rfl, code, since⟩ := exists_opening inside
  have split : text = before ++ '"' :: (inner ++ rest) := by simp [cut]
  cases closed : Text.closeQuote (inner ++ rest) with
  | none =>
      rw [split, compile, compileFrom_append, code, compileFrom_cons] at compiles
      simp [Mode.next, compileFrom_openString closed, Except.map] at compiles
  | some parts =>
      obtain ⟨body, after⟩ := parts
      have same := Text.closeQuote_text closed
      refine ⟨before, body, after, ⟨by rw [split, same], code, same ▸ closed⟩, by simp, ?_⟩
      -- The literal does not end before the place, for then the string would be closed there.
      by_contra short
      have longer : (body ++ ['"']).length ≤ inner.length := by
        simp only [List.length_append, List.length_cons, List.length_nil] at short ⊢
        omega
      have closing : body ++ ['"'] <+: inner ++ rest := ⟨after, by simp [same]⟩
      obtain ⟨right, isInner⟩ := List.prefix_of_prefix_length_le closing (List.prefix_append inner rest) longer
      have still := since (body ++ ['"']) right isInner.symm
      rw [through_opening code, through_string closed] at still
      cases still

theorem IsLiteral.inside {text before body after front rest : List Char} (literal : IsLiteral text before body after)
    (cut : text = front ++ rest) (begun : before.length < front.length)
    (unfinished : front.length < before.length + (body.length + 2)) :
    (Mode.code.through 0 front).2.isString = true := by
  have isFront : front <+: text := ⟨rest, cut.symm⟩
  have opening : before ++ ['"'] <+: text := ⟨body ++ '"' :: after, by simp [literal.whole]⟩
  have unclosed : before ++ '"' :: body <+: text := ⟨'"' :: after, by simp [literal.whole]⟩
  obtain ⟨inner, rfl⟩ := List.prefix_of_prefix_length_le opening isFront (by
    simpa using Nat.succ_le_of_lt begun)
  obtain ⟨more, isBody⟩ := List.prefix_of_prefix_length_le isFront unclosed (by
    simp only [List.length_append, List.length_cons] at unfinished ⊢
    omega)
  have within : body = inner ++ more := by simpa using isBody.symm
  rw [List.append_assoc, List.singleton_append, through_opening literal.opens]
  exact through_inside literal.closes within _ _

/-! ## Modes in comment lines -/

theorem through_commentLine {line : List Char} (isComment : isCommentLine line = true)
    (unbroken : ∀ c ∈ line, Lexeme.isLineBreak c = false) (offset : Nat) :
    (Mode.code.through offset line).2 = .comment ∧
      ∀ left c right, line = left ++ c :: right → (Mode.code.through offset left).2 = .code → c ≠ '"' := by
  induction line generalizing offset with
  | nil => cases isComment
  | cons d line ih =>
      have unbrokenLine : ∀ c ∈ line, Lexeme.isLineBreak c = false := fun c member => unbroken c (by simp [member])
      cases blank : isIndent d with
      | true =>
          have noMark : d ≠ '"' ∧ d ≠ '#' := by constructor <;> (rintro rfl; cases blank)
          have next : Mode.code.next offset d = .code := by simp [Mode.next, noMark]
          have later : isCommentLine line = true := by simpa [isCommentLine, blank] using isComment
          obtain ⟨behind, inside⟩ := ih later unbrokenLine (offset + d.utf8Size)
          refine ⟨by rw [Mode.through, next]; exact behind, fun left c right cut code => ?_⟩
          cases left with
          | nil =>
              obtain ⟨rfl, -⟩ := List.cons.inj cut
              exact noMark.1
          | cons e others =>
              obtain ⟨rfl, within⟩ := List.cons.inj cut
              rw [Mode.through, next] at code
              exact inside others c right within code
      | false =>
          obtain rfl : d = '#' := by
            unfold isCommentLine at isComment
            rw [List.dropWhile_cons_of_neg (by simp [blank])] at isComment
            split at isComment
            · next same => exact (List.cons.inj same).1
            · cases isComment
          have comment (body : List Char) (unbroken : ∀ c ∈ body, Lexeme.isLineBreak c = false) :
              (Mode.code.through offset ('#' :: body)).2 = .comment := by
            rw [Mode.through]
            exact congrArg Prod.snd (through_comment unbroken _)
          refine ⟨comment line unbrokenLine, fun left c right cut code => ?_⟩
          cases left with
          | nil =>
              obtain ⟨rfl, -⟩ := List.cons.inj cut
              decide
          | cons e others =>
              obtain ⟨rfl, rfl⟩ := List.cons.inj cut
              rw [comment others fun c member => unbrokenLine c (by simp [member])] at code
              cases code

/-- No string opens in comment lines. -/
theorem ne_quote_of_rows {lines : List (List Char)} (areComments : ∀ line ∈ lines, isCommentLine line = true)
    (unbroken : ∀ line ∈ lines, ∀ c ∈ line, Lexeme.isLineBreak c = false) {offset : Nat} {left right : List Char}
    {c : Char} (cut : Text.rows lines = left ++ c :: right) (code : (Mode.code.through offset left).2 = .code) :
    c ≠ '"' := by
  induction lines generalizing offset left with
  | nil => simp [Text.rows] at cut
  | cons line rest ih =>
      obtain ⟨comment, inside⟩ := through_commentLine (areComments line (by simp)) (unbroken line (by simp)) offset
      have commentsRest := (List.forall_mem_cons.mp areComments).2
      have unbrokenRest := (List.forall_mem_cons.mp unbroken).2
      have isRows : line ++ '\n' :: Text.rows rest = left ++ c :: right := by
        rw [← cut]
        simp [Text.rows]
      rcases List.append_eq_append_iff.mp isRows with ⟨more, rfl, same⟩ | ⟨more, rfl, same⟩
      · cases more with
        | nil =>
            obtain ⟨rfl, -⟩ := List.cons.inj same
            decide
        | cons d others =>
            obtain ⟨rfl, within⟩ := List.cons.inj same
            -- The line feed ends the comment, so the mode is code where the next line starts.
            rw [through_append, comment] at code
            exact ih commentsRest unbrokenRest within code
      · cases more with
        | nil =>
            obtain ⟨rfl, -⟩ := List.cons.inj same
            decide
        | cons d others =>
            obtain ⟨rfl, -⟩ := List.cons.inj same
            exact inside left c others rfl code

/-- A literal ends before a run of comment lines that starts outside of all strings, or opens behind the run. -/
theorem IsLiteral.beyond_run {text before body after front rest : List Char} {lines : List (List Char)}
    (literal : IsLiteral text before body after) (cut : text = front ++ (Text.joinLines lines ++ rest))
    (fresh : front = [] ∨ ∃ before, front = before ++ ['\n'])
    (unquoted : (Mode.code.through 0 front).2.isString = false) (nonempty : lines ≠ [])
    (areComments : ∀ line ∈ lines, isCommentLine line = true)
    (unbroken : ∀ line ∈ lines, ∀ c ∈ line, Lexeme.isLineBreak c = false) :
    before.length + (body.length + 2) ≤ front.length ∨ (front ++ Text.joinLines lines).length ≤ before.length := by
  by_cases begun : before.length < front.length
  · left
    by_contra unfinished
    rw [literal.inside cut begun (by omega)] at unquoted
    cases unquoted
  · right
    by_contra short
    have isFront : front <+: text := ⟨_, cut.symm⟩
    have isBefore : before <+: text := ⟨_, literal.whole.symm⟩
    obtain ⟨left, rfl⟩ := List.prefix_of_prefix_length_le isFront isBefore (by omega)
    -- The quote mark of the literal stands in the run, where the mode is code.
    have opening : front ++ left ++ ['"'] <+: text := ⟨body ++ '"' :: after, by simp [literal.whole]⟩
    have isRun : front ++ Text.joinLines lines <+: text := ⟨rest, by simp [cut]⟩
    obtain ⟨right, inRun⟩ := List.prefix_of_prefix_length_le opening isRun (by
      simp only [List.length_append, List.length_singleton] at short ⊢
      omega)
    have inRows : Text.rows lines = left ++ '"' :: (right ++ ['\n']) := by
      rw [List.append_assoc, List.append_assoc] at inRun
      rw [← Text.joinLines_rows nonempty, ← List.append_cancel_left inRun]
      simp
    have code := literal.opens
    rw [through_append, code_of_lineStart fresh unquoted] at code
    exact ne_quote_of_rows areComments unbroken inRows code rfl

end Literate

/-! ## Pieces of literate text -/

namespace Instrument

/-- A part of literate text: one that is kept, or a run of comment lines and the code in its place. -/
inductive Piece where
  | kept (text : List Char)
  | replaced (text code : List Char)
  deriving DecidableEq, Repr

namespace Piece

def source : Piece → List Char
  | kept text => text
  | replaced text _ => text

def result : Piece → List Char
  | kept text => text
  | replaced _ code => code

/-- One piece that is kept holds all of `part`, with `before` and `after` around it in the text. -/
def Holds (pieces : List Piece) (before part after : List Char) : Prop :=
  ∃ left right front behind,
    pieces = left ++ kept (front ++ (part ++ behind)) :: right ∧
      before = left.flatMap source ++ front ∧ after = behind ++ right.flatMap source

theorem Holds.cons {pieces : List Piece} {before part after : List Char} (piece : Piece)
    (holds : Holds pieces before part after) : Holds (piece :: pieces) (piece.source ++ before) part after := by
  obtain ⟨left, right, front, behind, rfl, rfl, isAfter⟩ := holds
  exact ⟨piece :: left, right, front, behind, rfl, by simp, isAfter⟩

/-- The first piece, which stands behind `done`, holds what begins and ends in it. -/
theorem Holds.first {pieces : List Piece} {text done first before part after : List Char}
    (whole : text = done ++ (first ++ pieces.flatMap source)) (spelled : text = before ++ (part ++ after))
    (begun : done.length ≤ before.length) (ended : (before ++ part).length ≤ (done ++ first).length) :
    ∃ front, before = done ++ front ∧ Holds (kept first :: pieces) front part after := by
  obtain ⟨front, rfl⟩ := List.prefix_of_prefix_length_le ⟨_, whole.symm⟩ ⟨_, spelled.symm⟩ begun
  have isPart : done ++ front ++ part <+: text := ⟨after, by rw [spelled, List.append_assoc (done ++ front)]⟩
  have isFirst : done ++ first <+: text := ⟨_, by rw [whole, List.append_assoc]⟩
  obtain ⟨behind, cut⟩ := List.prefix_of_prefix_length_le isPart isFirst ended
  have held : first = front ++ (part ++ behind) := by simpa using cut.symm
  have isAfter : after = behind ++ pieces.flatMap source := by
    rw [whole, held] at spelled
    simpa using spelled.symm
  exact ⟨front, rfl, [], pieces, front, behind, by rw [held]; rfl, rfl, isAfter⟩

/-- What one kept piece holds does not touch another that is replaced. -/
theorem Holds.apart {left right : List Piece} {text code before part after : List Char}
    (holds : Holds (left ++ replaced text code :: right) before part after) :
    (left.flatMap source ++ text).length ≤ before.length ∨
      (before ++ part).length ≤ (left.flatMap source).length := by
  obtain ⟨passed, others, front, behind, same, rfl, -⟩ := holds
  rcases List.append_eq_append_iff.mp same with ⟨between, rfl, cut⟩ | ⟨between, rfl, cut⟩
  · cases between with
    | nil => cases cut
    | cons piece between =>
        obtain ⟨rfl, -⟩ := List.cons.inj cut
        left
        simp [source]
  · cases between with
    | nil => cases cut
    | cons piece between =>
        obtain ⟨rfl, -⟩ := List.cons.inj cut
        right
        simp [source]

end Piece

/-- The pieces of the text `kept`, of the chunks behind it with a line feed before each, and of `final`. -/
def piecesFrom (lead : List Char) (lines : List (List Char)) (final kept : List Char) :
    List (List (List Char × Nat)) → List Piece
  | [] => [.kept (kept ++ final)]
  | chunk :: rest =>
      if chunkExamples lead chunk = [] then piecesFrom lead lines final (kept ++ '\n' :: chunkText chunk) rest
      else
        .kept (kept ++ ['\n']) :: .replaced (chunkText chunk) (Text.joinLines (chunkCode lead lines chunk)) ::
          piecesFrom lead lines final [] rest

def pieces (lead text : List Char) : List Piece :=
  let lines := Text.lines (Text.dropFinalBreak text)
  let final := if text.getLast? = some '\n' then ['\n'] else []
  match chunks (lines.zipIdx 1) with
  | [] => []
  | first :: rest =>
      if chunkExamples lead first = [] then piecesFrom lead lines final (chunkText first) rest
      else
        .replaced (chunkText first) (Text.joinLines (chunkCode lead lines first)) ::
          piecesFrom lead lines final [] rest

/-- The lines of literate text that are replaced, with their numbers. -/
def replacedLines (lead text : List Char) : List (List Char × Nat) :=
  ((chunks ((Text.lines (Text.dropFinalBreak text)).zipIdx 1)).filter (chunkExamples lead · ≠ [])).flatten

variable {lead : List Char} {lines : List (List Char)} {final kept : List Char}
  {chunk : List (List Char × Nat)} {rest : List (List (List Char × Nat))}

theorem rows_chunk (nonempty : chunk ≠ []) : Text.rows (chunk.map (·.1)) = chunkText chunk ++ ['\n'] :=
  (Text.joinLines_rows (mt List.map_eq_nil_iff.mp nonempty)).symm

theorem rows_chunks (nonempty : chunk ≠ []) :
    Text.rows ((chunk :: rest).flatten.map (·.1)) = chunkText chunk ++ '\n' :: Text.rows (rest.flatten.map (·.1)) := by
  rw [List.flatten_cons, List.map_append, Text.rows_append, rows_chunk nonempty, List.append_assoc]
  rfl

theorem piecesFrom_source : (piecesFrom lead lines final kept rest).flatMap Piece.source =
    kept ++ (rest.flatMap (fun chunk => '\n' :: chunkText chunk) ++ final) := by
  induction rest generalizing kept with
  | nil => simp [piecesFrom, Piece.source]
  | cons chunk rest ih =>
      rw [piecesFrom]
      split
      · rw [ih]
        simp
      · rw [List.flatMap_cons, List.flatMap_cons, ih]
        simp [Piece.source]

theorem piecesFrom_result : (piecesFrom lead lines final kept rest).flatMap Piece.result =
    kept ++ (rest.flatMap (fun chunk => '\n' :: Text.joinLines (chunkCode lead lines chunk)) ++ final) := by
  induction rest generalizing kept with
  | nil => simp [piecesFrom, Piece.result]
  | cons chunk rest ih =>
      rw [piecesFrom]
      split
      · next none =>
          rw [ih, List.flatMap_cons, chunkCode_kept none]
          simp
      · rw [List.flatMap_cons, List.flatMap_cons, ih]
        simp [Piece.result]

theorem piecesFrom_cut {left right : List (List (List Char × Nat))} (some : chunkExamples lead chunk ≠ [])
    (nonempty : ∀ chunk ∈ left, chunk ≠ []) :
    ∃ passed others,
      piecesFrom lead lines final kept (left ++ chunk :: right) =
          passed ++ .replaced (chunkText chunk) (Text.joinLines (chunkCode lead lines chunk)) :: others ∧
        passed.flatMap Piece.source = kept ++ '\n' :: Text.rows (left.flatten.map (·.1)) := by
  induction left generalizing kept with
  | nil =>
      refine ⟨[.kept (kept ++ ['\n'])], piecesFrom lead lines final [] right, ?_, by simp [Piece.source, Text.rows]⟩
      rw [List.nil_append, piecesFrom, if_neg some]
      rfl
  | cons first left ih =>
      obtain ⟨here, later⟩ := List.forall_mem_cons.mp nonempty
      rw [List.cons_append, piecesFrom, rows_chunks here]
      split
      · obtain ⟨passed, others, cut, isPassed⟩ := @ih (kept ++ '\n' :: chunkText first) later
        exact ⟨passed, others, cut, by simp [isPassed]⟩
      · obtain ⟨passed, others, cut, isPassed⟩ := @ih [] later
        refine ⟨.kept (kept ++ ['\n']) ::
          .replaced (chunkText first) (Text.joinLines (chunkCode lead lines first)) :: passed, others, ?_, ?_⟩
        · rw [cut]
          rfl
        · simp [isPassed, Piece.source]

theorem exists_pieces (lead text : List Char) :
    ∃ lines first rest final, chunks (lines.zipIdx 1) = first :: rest ∧
      lines = Text.lines (Text.dropFinalBreak text) ∧
      text = chunkText first ++ (rest.flatMap (fun chunk => '\n' :: chunkText chunk) ++ final) ∧
      literate lead text = Text.joinLines (chunkCode lead lines first) ++
        (rest.flatMap (fun chunk => '\n' :: Text.joinLines (chunkCode lead lines chunk)) ++ final) ∧
      pieces lead text =
        if chunkExamples lead first = [] then piecesFrom lead lines final (chunkText first) rest
        else
          .replaced (chunkText first) (Text.joinLines (chunkCode lead lines first)) ::
            piecesFrom lead lines final [] rest := by
  obtain ⟨lines, first, rest, final, cut, isLines, ending, isText, isCode⟩ := literate_chunks lead text
  refine ⟨lines, first, rest, final, cut, isLines, isText, isCode, ?_⟩
  rw [pieces, ← isLines, cut, ending]

/-- The pieces of literate text spell it, and their code the instrumented text. -/
theorem pieces_spell (lead text : List Char) :
    (pieces lead text).flatMap Piece.source = text ∧
      (pieces lead text).flatMap Piece.result = literate lead text := by
  obtain ⟨lines, first, rest, final, -, -, isText, isCode, isPieces⟩ := exists_pieces lead text
  rw [isPieces, isCode]
  split
  · next none =>
      rw [piecesFrom_source, piecesFrom_result, chunkCode_kept none]
      exact ⟨isText.symm, rfl⟩
  · rw [List.flatMap_cons, List.flatMap_cons, piecesFrom_source, piecesFrom_result]
    exact ⟨isText.symm, rfl⟩

theorem pieces_cut {text : List Char} {left right : List (List (List Char × Nat))}
    (cut : chunks ((Text.lines (Text.dropFinalBreak text)).zipIdx 1) = left ++ chunk :: right)
    (some : chunkExamples lead chunk ≠ []) :
    ∃ passed code others,
      pieces lead text = passed ++ .replaced (chunkText chunk) code :: others ∧
        passed.flatMap Piece.source = Text.rows (left.flatten.map (·.1)) := by
  obtain ⟨lines, first, rest, final, isCut, rfl, -, -, isPieces⟩ := exists_pieces lead text
  have nonempty : ∀ chunk ∈ left, chunk ≠ [] := fun other member =>
    (@chunk_lines lead _ other (cut ▸ List.mem_append_left _ member)).1
  rw [isCut] at cut
  rw [isPieces]
  cases left with
  | nil =>
      obtain ⟨rfl, rfl⟩ := List.cons.inj cut
      rw [if_neg some]
      exact ⟨[], _, _, rfl, rfl⟩
  | cons other left =>
      rw [List.cons_append] at cut
      obtain ⟨rfl, rfl⟩ := List.cons.inj cut
      obtain ⟨here, later⟩ := List.forall_mem_cons.mp nonempty
      rw [rows_chunks here]
      split
      · obtain ⟨passed, others, isCut, isPassed⟩ := piecesFrom_cut some later
        exact ⟨passed, _, others, isCut, isPassed⟩
      · obtain ⟨passed, others, isCut, isPassed⟩ :=
          @piecesFrom_cut lead (Text.lines (Text.dropFinalBreak text)) final [] chunk left right some later
        refine ⟨.replaced (chunkText first) _ :: passed, _, others, by rw [isCut]; rfl, ?_⟩
        simp [isPassed, Piece.source]

/-! ## Strings and replaced lines -/

/-- The text before a line of a chunk consists of the chunks before it and the lines before it in the chunk. -/
theorem beforeLine_cut {text : List Char} {left right : List (List (List Char × Nat))}
    {passed more : List (List Char × Nat)} {line : List Char × Nat}
    (cut : chunks ((Text.lines (Text.dropFinalBreak text)).zipIdx 1) = left ++ (passed ++ line :: more) :: right) :
    Text.beforeLine text line.2 = Text.rows (left.flatten.map (·.1)) ++ Text.rows (passed.map (·.1)) := by
  have whole : (Text.lines (Text.dropFinalBreak text)).zipIdx 1 =
      (left.flatten ++ passed) ++ line :: (more ++ right.flatten) := by
    rw [← List.flatten_splitBy _ ((Text.lines (Text.dropFinalBreak text)).zipIdx 1)]
    rw [chunks] at cut
    rw [cut]
    simp
  obtain ⟨front, others, isLines, isFront, isRest⟩ := List.zipIdx_eq_append_iff.mp whole
  obtain ⟨_, _, -, isLine, -⟩ := List.zipIdx_eq_cons_iff.mp isRest.symm
  have number : line.2 - 1 = front.length := by simp [isLine]
  rw [Text.beforeLine, number, Text.lines_dropFinalBreak, isLines, List.append_assoc, List.take_left,
    ← Text.rows_append, ← List.map_append, isFront, List.zipIdx_map_fst]

theorem mem_replacedLines {text : List Char} {line : List Char × Nat} (member : line ∈ replacedLines lead text) :
    ∃ left passed more right,
      chunks ((Text.lines (Text.dropFinalBreak text)).zipIdx 1) = left ++ (passed ++ line :: more) :: right ∧
        chunkExamples lead (passed ++ line :: more) ≠ [] := by
  obtain ⟨chunk, isRun, inside⟩ := List.mem_flatten.mp member
  obtain ⟨isChunk, some⟩ := List.mem_filter.mp isRun
  obtain ⟨left, right, cut⟩ := List.append_of_mem isChunk
  obtain ⟨passed, more, rfl⟩ := List.append_of_mem inside
  exact ⟨left, passed, more, right, cut, by simpa using some⟩

theorem mem_runsFrom {run : List Char × List Example} {front : List Char} (member : run ∈ runsFrom lead front rest)
    (nonempty : ∀ chunk ∈ rest, chunk ≠ []) :
    ∃ left chunk right, rest = left ++ chunk :: right ∧ chunkExamples lead chunk ≠ [] ∧
      run.1 = front ++ Text.rows (left.flatten.map (·.1)) := by
  induction rest generalizing front with
  | nil => cases member
  | cons first rest ih =>
      obtain ⟨here, later⟩ := List.forall_mem_cons.mp nonempty
      have behind (member : run ∈ runsFrom lead (front ++ (chunkText first ++ ['\n'])) rest) :
          ∃ left chunk right, first :: rest = left ++ chunk :: right ∧ chunkExamples lead chunk ≠ [] ∧
            run.1 = front ++ Text.rows (left.flatten.map (·.1)) := by
        obtain ⟨left, chunk, right, rfl, some, isFront⟩ := ih member later
        exact ⟨first :: left, chunk, right, rfl, some, by rw [isFront, rows_chunks here]; simp⟩
      rw [runsFrom] at member
      split at member
      · exact behind member
      · next some =>
          rcases List.mem_cons.mp member with rfl | inRest
          · exact ⟨[], first, rest, rfl, some, by simp [Text.rows]⟩
          · exact behind inRest

/-- A run starts with a line that is replaced. -/
theorem exists_firstLine {text : List Char} {run : List Char × List Example} (member : run ∈ runs lead text) :
    ∃ line ∈ replacedLines lead text, Text.beforeLine text line.2 = run.1 := by
  obtain ⟨left, chunk, right, cut, some, isFront⟩ := mem_runsFrom member fun chunk isChunk =>
    (@chunk_lines lead _ chunk isChunk).1
  have isChunk : chunk ∈ chunks ((Text.lines (Text.dropFinalBreak text)).zipIdx 1) := cut ▸ by simp
  obtain ⟨line, more, rfl⟩ := List.exists_cons_of_ne_nil (@chunk_lines lead _ chunk isChunk).1
  refine ⟨line, List.mem_flatten.mpr ⟨_, List.mem_filter.mpr ⟨isChunk, by simpa using some⟩, by simp⟩, ?_⟩
  rw [@beforeLine_cut text left right [] more line cut, isFront]
  simp [Text.rows]

/-- A line that is replaced starts in a piece that is replaced. -/
theorem exists_replaced {text : List Char} {line : List Char × Nat} (member : line ∈ replacedLines lead text) :
    ∃ passed inner more code others, pieces lead text = passed ++ .replaced (inner ++ more) code :: others ∧
      Text.beforeLine text line.2 = passed.flatMap Piece.source ++ inner := by
  obtain ⟨left, before, behind, right, cut, some⟩ := mem_replacedLines member
  obtain ⟨passed, code, others, isCut, isPassed⟩ := pieces_cut cut some
  refine ⟨passed, Text.rows (before.map (·.1)), chunkText (line :: behind), code, others, ?_, ?_⟩
  · rw [isCut, chunkText, List.map_append, Text.joinLines_append (by simp)]
    rfl
  · rw [beforeLine_cut cut, isPassed]

/-- A literal that opens behind `done` is held by one of the pieces that follow. The induction goes over the chunks. -/
theorem exists_holds {text done before body after : List Char} (literal : Literate.IsLiteral text before body after)
    (nonempty : ∀ chunk ∈ rest, chunk ≠ [])
    (unbroken : ∀ chunk ∈ rest, ∀ line ∈ chunk, ∀ c ∈ line.1, Lexeme.isLineBreak c = false)
    (areComments : ∀ chunk ∈ rest, chunkExamples lead chunk ≠ [] →
      ∀ line ∈ chunk, Literate.isCommentLine line.1 = true)
    (whole : text = done ++ (kept ++ (rest.flatMap (fun chunk => '\n' :: chunkText chunk) ++ final)))
    (begun : done.length ≤ before.length)
    (unquoted : ∀ run ∈ runsFrom lead (done ++ (kept ++ ['\n'])) rest,
      (Literate.Mode.code.through 0 run.1).2.isString = false) :
    ∃ front, before = done ++ front ∧
      Piece.Holds (piecesFrom lead lines final kept rest) front ('"' :: (body ++ ['"'])) after := by
  have spelled : text = before ++ ('"' :: (body ++ ['"']) ++ after) := by simp [literal.whole]
  induction rest generalizing done kept with
  | nil =>
      refine Piece.Holds.first (by simpa using whole) spelled begun ?_
      have lengths := congrArg List.length (whole.symm.trans spelled)
      simp only [List.flatMap_nil, List.nil_append, List.length_append] at lengths ⊢
      omega
  | cons chunk rest ih =>
      obtain ⟨here, nonemptyRest⟩ := List.forall_mem_cons.mp nonempty
      have unbrokenRest := (List.forall_mem_cons.mp unbroken).2
      have commentsRest := (List.forall_mem_cons.mp areComments).2
      rw [piecesFrom]
      by_cases none : chunkExamples lead chunk = []
      · rw [if_pos none]
        rw [runsFrom, if_pos none] at unquoted
        exact ih nonemptyRest unbrokenRest commentsRest (by rw [whole]; simp) begun (by simpa using unquoted)
      · rw [if_neg none]
        rw [runsFrom, if_neg none] at unquoted
        obtain ⟨outside, later⟩ := List.forall_mem_cons.mp unquoted
        have cut : text = done ++ (kept ++ ['\n']) ++
            (chunkText chunk ++ (rest.flatMap (fun chunk => '\n' :: chunkText chunk) ++ final)) := by
          rw [whole]
          simp
        have apart := literal.beyond_run cut (.inr ⟨done ++ kept, by simp⟩) outside
          (mt List.map_eq_nil_iff.mp here)
          (List.forall_mem_map.mpr (areComments chunk (by simp) none))
          (List.forall_mem_map.mpr (unbroken chunk (by simp)))
        rcases apart with ended | opened
        · -- The literal lies in the piece before the run.
          refine Piece.Holds.first ?_ spelled begun (by simpa [Nat.add_assoc] using ended)
          rw [List.flatMap_cons, piecesFrom_source, cut, List.append_assoc]
          rfl
        · -- The literal opens behind the run; the induction goes on there with nothing kept.
          obtain ⟨front, isFront, holds⟩ := @ih [] (done ++ (kept ++ ['\n']) ++ chunkText chunk) nonemptyRest
            unbrokenRest commentsRest (by rw [cut]; simp) opened (by simpa using later)
          refine ⟨kept ++ ['\n'] ++ (chunkText chunk ++ front), by rw [isFront]; simp, ?_⟩
          exact (holds.cons (.replaced (chunkText chunk) _)).cons (.kept (kept ++ ['\n']))

/-- Where no run starts in a string, every literal is held by a piece that is kept. -/
theorem pieces_hold {text before body after : List Char} (noReturn : '\r' ∉ text)
    (unquoted : ∀ run ∈ runs lead text, (Literate.Mode.code.through 0 run.1).2.isString = false)
    (literal : Literate.IsLiteral text before body after) :
    Piece.Holds (pieces lead text) before ('"' :: (body ++ ['"'])) after := by
  obtain ⟨lines, first, rest, final, cut, isLines, isText, -, isPieces⟩ := exists_pieces lead text
  have proper (chunk : List (List Char × Nat)) (member : chunk ∈ first :: rest) :=
    @chunk_lines lead lines chunk (cut ▸ member)
  have unbroken (chunk : List (List Char × Nat)) (member : chunk ∈ first :: rest) :
      ∀ line ∈ chunk, ∀ c ∈ line.1, Lexeme.isLineBreak c = false := by
    rw [← cut, isLines] at member
    exact chunk_unbroken noReturn member
  have ofRest {done kept : List Char}
      (whole : text = done ++ (kept ++ (rest.flatMap (fun chunk => '\n' :: chunkText chunk) ++ final))) :=
    @exists_holds lead lines final kept rest text done before body after literal
      (fun chunk member => (proper chunk (by simp [member])).1) (fun chunk member => unbroken chunk (by simp [member]))
      (fun chunk member => (proper chunk (by simp [member])).2.2) whole
  rw [runs, ← isLines, cut, runsFrom] at unquoted
  rw [isPieces]
  by_cases none : chunkExamples lead first = []
  · rw [if_pos none] at unquoted ⊢
    obtain ⟨front, isFront, holds⟩ := @ofRest [] (chunkText first) isText (Nat.zero_le _) unquoted
    exact isFront ▸ holds
  · rw [if_neg none] at unquoted ⊢
    obtain ⟨outside, later⟩ := List.forall_mem_cons.mp unquoted
    have apart := literal.beyond_run isText (.inl rfl) outside (mt List.map_eq_nil_iff.mp (proper first (by simp)).1)
      (List.forall_mem_map.mpr ((proper first (by simp)).2.2 none))
      (List.forall_mem_map.mpr (unbroken first (by simp)))
    rcases apart with ended | opened
    · cases ended
    · obtain ⟨front, isFront, holds⟩ := @ofRest (chunkText first) [] isText opened (by simpa using later)
      exact isFront ▸ holds.cons (.replaced (chunkText first) _)

/-- Where every literal is held by a piece that is kept, no line that is replaced starts in a string. -/
theorem unquoted_of_hold {text compiled : List Char} (compiles : Literate.compile text = .ok compiled)
    (holds : ∀ before body after, Literate.IsLiteral text before body after →
      Piece.Holds (pieces lead text) before ('"' :: (body ++ ['"'])) after)
    {line : List Char × Nat} (member : line ∈ replacedLines lead text) :
    Literate.startsInString text line.2 = false := by
  by_contra inside
  obtain ⟨passed, inner, more, code, others, cut, isFront⟩ := exists_replaced member
  have whole : text = Text.beforeLine text line.2 ++ (more ++ others.flatMap Piece.source) := by
    have spelled := (pieces_spell lead text).1
    rw [cut] at spelled
    rw [isFront]
    simpa [Piece.source] using spelled.symm
  obtain ⟨before, body, after, literal, begun, unfinished⟩ :=
    Literate.exists_literal compiles whole (Bool.not_eq_false _ ▸ inside)
  have held := holds before body after literal
  rw [cut] at held
  rw [isFront] at begun unfinished
  have apart := held.apart
  simp only [List.length_append, List.length_cons, List.length_nil] at apart begun unfinished
  omega

/-- Of literate text that compiles, instrumentation keeps pieces and replaces runs of comment lines by code. Each string
literal lies in a piece that is kept exactly when no line that is replaced starts inside a literal, and for that the
first lines of the runs decide. -/
theorem literate_strings (lead source : List Char) {compiled : List Char}
    (compiles : Literate.compile (normalize source) = .ok compiled) :
    (pieces lead (normalize source)).flatMap Piece.source = normalize source ∧
    (pieces lead (normalize source)).flatMap Piece.result = literate lead (normalize source) ∧
    ((∀ line ∈ replacedLines lead (normalize source), Literate.startsInString (normalize source) line.2 = false) ↔
      ∀ before body after, Literate.IsLiteral (normalize source) before body after →
        Piece.Holds (pieces lead (normalize source)) before ('"' :: (body ++ ['"'])) after) ∧
    ((∀ line ∈ replacedLines lead (normalize source), Literate.startsInString (normalize source) line.2 = false) ↔
      ∀ run ∈ runs lead (normalize source), (Literate.Mode.code.through 0 run.1).2.isString = false) := by
  have ofLines (lines : ∀ line ∈ replacedLines lead (normalize source),
      Literate.startsInString (normalize source) line.2 = false) :
      ∀ run ∈ runs lead (normalize source), (Literate.Mode.code.through 0 run.1).2.isString = false := by
    intro run member
    obtain ⟨line, isReplaced, isFront⟩ := exists_firstLine member
    exact isFront ▸ lines line isReplaced
  have ofRuns (unquoted : ∀ run ∈ runs lead (normalize source),
      (Literate.Mode.code.through 0 run.1).2.isString = false) (before body after : List Char) :=
    @pieces_hold lead (normalize source) before body after (normalize_noReturn source) unquoted
  obtain ⟨spelled, written⟩ := pieces_spell lead (normalize source)
  refine ⟨spelled, written, ⟨fun lines => ofRuns (ofLines lines), fun holds line => unquoted_of_hold compiles holds⟩,
    ofLines, fun unquoted line => unquoted_of_hold compiles (ofRuns unquoted)⟩

/-- A string over a line that looks like a comment, and behind it a run with a string of its own. -/
theorem literate_strings_kept :
    Piece.Holds (pieces [] (normalize "(f \"a\n# b\n\" 1)\n# > \"x\"\n# \"x\"\n(g \"\")".toList)) "(f ".toList
        "\"a\n# b\n\"".toList " 1)\n# > \"x\"\n# \"x\"\n(g \"\")".toList ∧
      Piece.Holds (pieces [] (normalize "(f \"a\n# b\n\" 1)\n# > \"x\"\n# \"x\"\n(g \"\")".toList))
        "(f \"a\n# b\n\" 1)\n# > \"x\"\n# \"x\"\n(g ".toList "\"\"".toList ")".toList := by
  have held := (@literate_strings [] "(f \"a\n# b\n\" 1)\n# > \"x\"\n# \"x\"\n(g \"\")".toList
    "(f \"a\n# b\n\" 1)\n; > \"x\"\n; \"x\"\n(g \"\")".toList (by decide)).2.2.1.mp (by decide)
  exact ⟨held _ "a\n# b\n".toList _ ⟨by decide, by decide, by decide⟩, held _ [] _ ⟨by decide, by decide, by decide⟩⟩

/-- A string over a line that looks like an example: the line is replaced, and the string is another one. -/
theorem literate_changes_string :
    Literate.compile (normalize "\"\n# > 1\n\"".toList) = .ok "\"\n# > 1\n\"".toList ∧
      replacedLines [] (normalize "\"\n# > 1\n\"".toList) = [("# > 1".toList, 2)] ∧
      Literate.startsInString (normalize "\"\n# > 1\n\"".toList) 2 = true ∧
      literate [] (normalize "\"\n# > 1\n\"".toList) =
        "\"\n(enqueue! __doctest \x7b\n  :type :input\n  :thunk (fn ()\n    1\n  )\x7d)\n\"".toList := by
  decide

end Instrument

end Exemplar
