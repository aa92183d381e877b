import Exemplar.Proofs.BlockExamples
import Exemplar.Proofs.LineEnds

/-!
# Instrumenting twice

No comment of an instrumented text opens an example, when the texts of the examples hold no comments: every line that
opens an example lies in a region, the code in the place of a region or of a block comment brings no comment in, and
what follows such code is drawn at most into a word. Such a text is instrumented to itself.
-/

namespace Exemplar

set_option maxRecDepth 2000

/-- Whether a lexeme is a comment that opens an example. -/
def Marker.opensComment (lead : List Char) : Lexeme → Bool
  | .line body => opensLine lead body
  | .block body => opensBlock lead body
  | _ => false

namespace Comment

variable {lead : List Char} {p : Position} {lexemes : List Lexeme}

theorem line_mem_iff (p : Position) {body : List Char} :
    .line body ∈ lexemes ↔ ∃ c ∈ linesFrom p lexemes, c.text = body := by
  constructor
  · intro member
    obtain ⟨before, after, rfl⟩ := List.append_of_mem member
    exact ⟨_, List.mem_filter.mpr ⟨mem_ofLexemes.mpr ⟨before, .line body, after, rfl, rfl⟩, rfl⟩, rfl⟩
  · rintro ⟨c, member, rfl⟩
    obtain ⟨found, isLine⟩ := List.mem_filter.mp member
    obtain ⟨before, lexeme, after, rfl, isComment⟩ := mem_ofLexemes.mp found
    cases lexeme with
    | line body => cases isComment; simp
    | block body => cases isComment; cases isLine
    | _ => cases isComment

theorem block_mem_iff {text body : List Char} : .block body ∈ Lexeme.all text ↔ ∃ c ∈ blocks text, c.text = body := by
  constructor
  · intro member
    obtain ⟨before, after, whole⟩ := List.append_of_mem member
    exact ⟨_, List.mem_filter.mpr ⟨mem_scan.mpr ⟨before, .block body, after, whole, rfl⟩, rfl⟩, rfl⟩
  · rintro ⟨c, member, rfl⟩
    obtain ⟨found, isBlock⟩ := List.mem_filter.mp member
    obtain ⟨before, lexeme, after, whole, isComment⟩ := mem_scan.mp found
    rw [whole]
    cases lexeme with
    | line body => cases isComment; cases isBlock
    | block body => cases isComment; simp
    | _ => cases isComment

/-- The places of the line comments that open an example. -/
def openersFrom (lead : List Char) (p : Position) (lexemes : List Lexeme) : List Position :=
  ((linesFrom p lexemes).filter fun c => Marker.opensLine lead c.text).map (·.span.start)

theorem openersFrom_append (left right : List Lexeme) :
    openersFrom lead p (left ++ right) =
      openersFrom lead p left ++ openersFrom lead (p.advance (Lexeme.texts left)) right := by
  rw [openersFrom, linesFrom_append, List.filter_append, List.map_append]
  rfl

theorem openersFrom_between {q : Position} (member : q ∈ openersFrom lead p lexemes) :
    p ≤ q ∧ q < p.advance (Lexeme.texts lexemes) := by
  obtain ⟨c, found, rfl⟩ := List.mem_map.mp member
  exact start_between (List.mem_filter.mp (List.mem_filter.mp found).1).1

theorem opensLine_of_openersFrom (none : openersFrom lead p lexemes = []) {body : List Char}
    (member : .line body ∈ lexemes) : Marker.opensLine lead body = false := by
  obtain ⟨c, found, rfl⟩ := (line_mem_iff p).mp member
  exact Bool.eq_false_iff.mpr (List.filter_eq_nil_iff.mp (List.map_eq_nil_iff.mp none) c found)

end Comment

namespace Example

/-- Of the places that the first region cuts in three, it takes one, its own start, and leaves those behind it. -/
theorem cut_starts {start stop : Position} {rest left inside right : List Position}
    (same : start :: rest = left ++ (inside ++ right)) (before : ∀ q ∈ left, q < start)
    (within : ∀ q ∈ inside, q < stop) (behind : ∀ q ∈ right, stop ≤ q) (later : ∀ q ∈ rest, stop ≤ q)
    (ordered : start < stop) :
    left = [] ∧ rest = right := by
  cases left with
  | cons first more =>
      obtain ⟨rfl, -⟩ := List.cons.inj same
      exact absurd (before start List.mem_cons_self) (Position.not_lt_of_le (Position.le_advance start []))
  | nil =>
      refine ⟨rfl, ?_⟩
      cases inside with
      | nil =>
          obtain rfl : start :: rest = right := same
          exact absurd ordered (Position.not_lt_of_le (behind start List.mem_cons_self))
      | cons first more =>
          obtain ⟨-, rfl⟩ := List.cons.inj same
          cases more with
          | nil => rfl
          | cons second others =>
              exact absurd (within second (by simp)) (Position.not_lt_of_le (later second (by simp)))

variable {lead : List Char} {p : Position} {lexemes result : List Lexeme} {examples : List Example}

theorem Spliced.le_start (spliced : Spliced p lexemes examples result) : ∀ e ∈ examples, p ≤ e.input.span.start := by
  induction spliced with
  | nil => exact fun e member => nomatch member
  | @cons p before region after result e rest isRegion starts stops later ih =>
      have first : p ≤ e.input.span.start := by
        rw [starts]
        exact Position.le_advance _ _
      exact List.forall_mem_cons.mpr
        ⟨first, fun other member => Position.le_trans (Position.le_advance _ _) (ih other member)⟩

theorem Spliced.forall_mem {holds : Lexeme → Prop} (spliced : Spliced p lexemes examples result)
    (kept : ∀ lexeme ∈ lexemes, holds lexeme)
    (inCode : ∀ e ∈ examples, ∀ lexeme ∈ Lexeme.all (Harness.code 0 e), holds lexeme) :
    ∀ lexeme ∈ result, holds lexeme := by
  induction spliced with
  | nil => exact kept
  | @cons p before region after result e rest isRegion starts stops later ih =>
      simp only [List.forall_mem_append] at kept ⊢
      obtain ⟨here, others⟩ := List.forall_mem_cons.mp inCode
      exact ⟨kept.1, here, ih kept.2.2 others⟩

/-- When the examples start where line comments open one, no line comment that is left opens one. -/
theorem Spliced.no_openers (spliced : Spliced p lexemes examples result)
    (starts : examples.map (·.input.span.start) = Comment.openersFrom lead p lexemes)
    (uncommented : ∀ e ∈ examples, ∀ lexeme ∈ Lexeme.all (Harness.code 0 e), lexeme.isComment = false)
    {body : List Char} (member : .line body ∈ result) : Marker.opensLine lead body = false := by
  induction spliced with
  | nil => exact Comment.opensLine_of_openersFrom starts.symm member
  | @cons p before region after result e rest isRegion begins stops later ih =>
      obtain ⟨here, others⟩ := List.forall_mem_cons.mp uncommented
      rw [Comment.openersFrom_append, Comment.openersFrom_append, ← Position.advance_append, ← Lexeme.texts_append,
        List.map_cons, begins] at starts
      have nonempty : Lexeme.texts region ≠ [] := by
        obtain ⟨rest, same⟩ := isRegion.texts_eq []
        rw [List.append_nil] at same
        rw [same]
        exact List.cons_ne_nil _ _
      have behindRegion (q : Position) (isStart : q ∈ rest.map (·.input.span.start)) :
          p.advance (Lexeme.texts (before ++ region)) ≤ q := by
        obtain ⟨other, isOther, rfl⟩ := List.mem_map.mp isStart
        exact later.le_start other isOther
      have split : p.advance (Lexeme.texts (before ++ region)) =
          (p.advance (Lexeme.texts before)).advance (Lexeme.texts region) := by
        rw [Lexeme.texts_append, Position.advance_append]
      -- Later examples start behind the region, so its first line is the only one in it that opens an example.
      obtain ⟨noneBefore, same⟩ := cut_starts starts (fun q isOpener => (Comment.openersFrom_between isOpener).2)
        (fun q isOpener => split ▸ (Comment.openersFrom_between isOpener).2)
        (fun q isOpener => (Comment.openersFrom_between isOpener).1) behindRegion
        (split ▸ Position.lt_advance _ nonempty)
      rcases List.mem_append.mp member with inBefore | inRest
      · exact Comment.opensLine_of_openersFrom noneBefore inBefore
      · rcases List.mem_append.mp inRest with inCode | inResult
        · cases here _ inCode
        · exact ih same others inResult

/-- Examples that bring no block comment in and keep the number of block comments keep all of them. -/
theorem Laid.exchange_kept (laid : Laid p lexemes examples) (none : ∀ e ∈ examples, e.brought = [])
    (count : (exchange (Comment.blocksFrom p lexemes) examples).length = (Comment.blocksFrom p lexemes).length) :
    exchange (Comment.blocksFrom p lexemes) examples = (Comment.blocksFrom p lexemes).map (·.text) := by
  have exchanged := laid.exchange_length
  rw [count, List.flatMap_eq_nil_iff.mpr none, List.length_nil, Nat.add_zero] at exchanged
  have nothing : examples.flatMap (·.taken (Comment.blocksFrom p lexemes)) = [] :=
    List.eq_nil_of_length_eq_zero (by omega)
  exact laid.exchange_eq fun e member => (none e member).trans (List.flatMap_eq_nil_iff.mp nothing e member).symm

theorem brought_eq_nil {e : Example}
    (uncommented : ∀ lexeme ∈ Lexeme.all (Harness.code 0 e), lexeme.isComment = false) : e.brought = [] := by
  rw [brought, List.map_eq_nil_iff, List.eq_nil_iff_forall_not_mem]
  intro c member
  cases uncommented _ (Comment.block_mem_iff.mpr ⟨c, member, rfl⟩)

end Example

/-! ## Texts that are done with -/

namespace Lexeme

/-- A lexeme that is left alone: no stray mark, no carriage return and no comment that opens an example. -/
structure Settled (lead : List Char) (lexeme : Lexeme) : Prop where
  closed : lexeme.isStray = false
  noReturn : '\r' ∉ lexeme.text
  spent : Marker.opensComment lead lexeme = false

variable {lead : List Char}

theorem settled_of_uncommented {lexeme : Lexeme} (closed : lexeme.isStray = false) (noReturn : '\r' ∉ lexeme.text)
    (uncommented : lexeme.isComment = false) : lexeme.Settled lead := by
  refine ⟨closed, noReturn, ?_⟩
  cases lexeme with
  | line body => cases uncommented
  | block body => cases uncommented
  | _ => rfl

/-- Behind a text without comments only a word is drawn in. -/
theorem settled_append {left right : List Char} (settled : ∀ lexeme ∈ all left, lexeme.Settled lead)
    (uncommented : ∀ lexeme ∈ all left, lexeme.isComment = false) (after : ∀ lexeme ∈ all right, lexeme.Settled lead) :
    ∀ lexeme ∈ all (left ++ right), lexeme.Settled lead := by
  have closed : ∀ lexeme ∈ all left, lexeme.isStray = false := fun l member => (settled l member).closed
  have apart (ends : ∀ lexeme ∈ (all left).getLast?, lexeme.EndsBefore right) :
      ∀ lexeme ∈ all (left ++ right), lexeme.Settled lead := by
    rw [all_append closed ends]
    exact List.forall_mem_append.mpr ⟨settled, after⟩
  cases final : (all left).getLast? with
  | none => exact apart (by simp [final])
  | some last =>
      cases last with
      | word characters =>
          obtain ⟨front, lexemes⟩ := List.getLast?_eq_some_iff.mp final
          -- The word takes in the symbols that `right` begins with; behind them a lexeme of `right` begins.
          obtain ⟨run, rest, rfl, isRun⟩ :
              ∃ run rest, right = run ++ rest ∧ run = (run ++ rest).takeWhile isSymbolChar := by
            have cut := List.takeWhile_append_dropWhile (p := isSymbolChar) (l := right)
            exact ⟨_, _, cut.symm, by rw [cut]⟩
          obtain ⟨symbols, ends⟩ := (takeWhile_append_iff isSymbolChar run rest).mp isRun
          have leads := leads_all left
          rw [lexemes] at leads
          obtain ⟨nonempty, earlier, -⟩ := opens_word.mp (leads_append.mp leads).2.1
          have grown : ∀ c ∈ characters ++ run, isSymbolChar c = true := List.forall_mem_append.mpr ⟨earlier, symbols⟩
          have opens : (word (characters ++ run)).Opens rest := opens_word.mpr ⟨by simp [nonempty], grown, ends⟩
          have tail : ∀ lexeme ∈ all rest, lexeme.Settled lead := by
            cases run with
            | nil => exact after
            | cons c more =>
                have isWord : all (c :: more ++ rest) = word (c :: more) :: all rest :=
                  all_of_opens (word (c :: more)) (opens_word.mpr ⟨List.cons_ne_nil _ _, symbols, ends⟩)
                rw [isWord] at after
                exact (List.forall_mem_cons.mp after).2
          rw [all_append_last closed lexemes rfl opens]
          refine List.forall_mem_append.mpr ⟨fun l member => settled l (by rw [lexemes]; simp [member]),
            List.forall_mem_cons.mpr ⟨settled_of_uncommented rfl ?_ rfl, tail⟩⟩
          exact noReturn_of_plain (List.all_eq_true.mpr grown)
      | line body => cases uncommented _ (List.mem_of_getLast? final)
      | _ => exact apart fun l member => by cases final.symm.trans member; trivial

end Lexeme

namespace Instrument

theorem replaceBlocks_settled {lead : List Char} {code : Nat → List (List Char)} {index : Nat} {p : Position}
    {lexemes : List Lexeme} (headed : Headed code) (leads : Lexeme.Leads [] lexemes)
    (settledCode : ∀ index, ∀ lexeme ∈ Lexeme.all (Text.joinLines (code index)),
      lexeme.Settled lead ∧ lexeme.isComment = false)
    (kept : ∀ lexeme ∈ lexemes, (∀ body, lexeme ≠ .block body) → lexeme.Settled lead)
    (spared : ∀ block ∈ (Comment.blocksFrom p lexemes).zipIdx index,
      code block.2 = [] → (Lexeme.block block.1.text).Settled lead) :
    ∀ lexeme ∈ Lexeme.all (replaceBlocks code index lexemes), lexeme.Settled lead := by
  induction lexemes generalizing p index with
  | nil => exact fun lexeme member => nomatch member
  | cons first rest ih =>
      obtain ⟨opens, leadsRest⟩ := leads
      obtain ⟨here, keptRest⟩ := List.forall_mem_cons.mp kept
      rw [List.append_nil] at opens
      have keep {index : Nat} (settled : first.Settled lead)
          (later : ∀ lexeme ∈ Lexeme.all (replaceBlocks code index rest), lexeme.Settled lead) :
          ∀ lexeme ∈ Lexeme.all (first.text ++ replaceBlocks code index rest), lexeme.Settled lead := by
        have ends : first.EndsBefore (replaceBlocks code index rest) :=
          endsBefore_replaceBlocks headed leadsRest opens.endsBefore
        rw [Lexeme.all_of_opens first (opens.change settled.closed ends)]
        exact List.forall_mem_cons.mpr ⟨settled, later⟩
      by_cases isBlock : ∃ body, first = .block body
      · obtain ⟨body, rfl⟩ := isBlock
        rw [Comment.blocksFrom_block, List.zipIdx_cons] at spared
        obtain ⟨sparedHere, sparedRest⟩ := List.forall_mem_cons.mp spared
        have recurse := ih leadsRest keptRest sparedRest
        by_cases none : code index = []
        · rw [replaceBlocks_block none]
          exact keep (sparedHere none) recurse
        · rw [replaceBlocks_code none]
          exact Lexeme.settled_append (fun l member => (settledCode index l member).1)
            (fun l member => (settledCode index l member).2) recurse
      · have other : ∀ body, first ≠ .block body := fun body same => isBlock ⟨body, same⟩
        rw [Comment.blocksFrom_other _ other] at spared
        rw [replaceBlocks_other other]
        exact keep (here other) (ih leadsRest keptRest spared)

theorem blockCode_settled {lead : List Char} {examples : List Example}
    (codes : ∀ e ∈ examples, ∀ lexeme ∈ Lexeme.all (Harness.code 0 e), lexeme.Settled lead ∧ lexeme.isComment = false)
    (index : Nat) : ∀ lexeme ∈ Lexeme.all (Text.joinLines (blockCode examples index)),
      lexeme.Settled lead ∧ lexeme.isComment = false := by
  have lines : ∀ line ∈ blockCode examples index, ∀ lexeme ∈ Lexeme.all line,
      lexeme.Settled lead ∧ lexeme.isComment = false := by
    intro line member
    obtain ⟨e, isExample, rfl⟩ := List.mem_map.mp member
    exact codes e (List.mem_filter.mp isExample).1
  exact Lexeme.forall_joinLines (fun line isLine lexeme member => (lines line isLine lexeme member).1.closed)
    ⟨Lexeme.settled_of_uncommented rfl (by decide) rfl, rfl⟩ lines

/-- Instrumentation leaves a text as it is in which no comment opens an example. -/
theorem program_of_settled {lead text : List Char} (settled : ∀ lexeme ∈ Lexeme.all text, lexeme.Settled lead) :
    Example.inLines lead text = [] ∧ Example.inBlocks lead text = [] ∧ program .sx lead text = .ok text := by
  have noLines : Example.inLines lead text = [] := by
    rw [← List.map_eq_nil_iff, Example.inLines_starts, List.map_eq_nil_iff, List.filter_eq_nil_iff]
    intro c member
    rw [Comment.lines_eq] at member
    exact Bool.eq_false_iff.mp (settled _ ((Comment.line_mem_iff .start).mpr ⟨c, member, rfl⟩)).spent
  have noBlocks : Example.inBlocks lead text = [] :=
    Example.inBlocks_eq_nil_iff.mpr fun c member =>
      (settled _ (Comment.block_mem_iff.mpr ⟨c, member, rfl⟩)).spent
  have same : normalize text = text := normalize_eq_self
    (Lexeme.noReturn_iff.mpr fun l member => (settled l member).noReturn) fun l member => (settled l member).closed
  refine ⟨noLines, noBlocks, ?_⟩
  change plain lead (normalize text) = _
  rw [same, plain_of_none noLines noBlocks]

section Plain

variable {lead text : List Char} (fits : Position.Fits text)
  (closed : ∀ lexeme ∈ Lexeme.all text, lexeme.isStray = false) (noReturn : '\r' ∉ text)
  (codes : ∀ e ∈ Example.inLines lead text, ∀ lexeme ∈ Lexeme.all (Harness.code 0 e),
    lexeme.Settled lead ∧ lexeme.isComment = false)

include fits closed noReturn codes in
/-- Behind replaced line examples only block comments may open an example. -/
theorem spliceLines_settled : ∀ lexeme ∈ Lexeme.all (spliceLines text (Example.inLines lead text)),
    (∀ body, lexeme = .block body → Marker.opensBlock lead body = false) → lexeme.Settled lead := by
  obtain ⟨result, spliced, lexemes⟩ := Example.spliceLines_lexemes lead text fits closed
    fun e member lexeme inCode => (codes e member lexeme inCode).1.closed
  have closedResult := spliced.forall_mem closed fun e member lexeme inCode => (codes e member lexeme inCode).1.closed
  have noReturns := spliced.forall_mem (Lexeme.noReturn_iff.mp noReturn)
    fun e member lexeme inCode => (codes e member lexeme inCode).1.noReturn
  intro lexeme member spent
  rw [lexemes] at member
  refine ⟨closedResult lexeme member, noReturns lexeme member, ?_⟩
  cases lexeme with
  | line body =>
      have starts := @Example.inLines_starts lead text
      rw [Comment.lines_eq] at starts
      exact spliced.no_openers starts
        (fun e isExample lexeme inCode => (codes e isExample lexeme inCode).2) member
  | block body => exact spent body rfl
  | _ => rfl

include fits closed codes in
theorem spliceLines_opensBlock (none : Example.inBlocks lead text = []) {body : List Char}
    (member : .block body ∈ Lexeme.all (spliceLines text (Example.inLines lead text))) :
    Marker.opensBlock lead body = false := by
  obtain ⟨result, spliced, lexemes⟩ := Example.spliceLines_lexemes lead text fits closed
    fun e member lexeme inCode => (codes e member lexeme inCode).1.closed
  rw [lexemes] at member
  have spent : ∀ lexeme ∈ result, ∀ body, lexeme = .block body → Marker.opensBlock lead body = false := by
    refine spliced.forall_mem ?_ ?_
    · rintro lexeme inText body rfl
      obtain ⟨c, found, rfl⟩ := Comment.block_mem_iff.mp inText
      exact Example.inBlocks_eq_nil_iff.mp none c found
    · rintro e isExample lexeme inCode body rfl
      cases (codes e isExample _ inCode).2
  exact spent _ member body rfl

include fits closed codes in
/-- When no block comment is lost, the same block comments stand behind replaced line examples. -/
theorem spliceLines_bodies (count : (Comment.blocks (spliceLines text (Example.inLines lead text))).length =
      (Comment.blocks text).length) :
    (Comment.blocks (spliceLines text (Example.inLines lead text))).map (·.text) =
      (Comment.blocks text).map (·.text) := by
  obtain ⟨result, spliced, lexemes⟩ := Example.spliceLines_lexemes lead text fits closed
    fun e member lexeme inCode => (codes e member lexeme inCode).1.closed
  have bodies : (Comment.blocks (spliceLines text (Example.inLines lead text))).map (·.text) =
      Example.exchange (Comment.blocks text) (Example.inLines lead text) := by
    rw [Comment.blocks_eq, lexemes, Comment.blocks_eq]
    exact spliced.bodies .start
  rw [← List.length_map (·.text), bodies] at count
  rw [Comment.blocks_eq text] at bodies count ⊢
  exact bodies.trans ((Example.inLines_laid lead text).exchange_kept
    (fun e member => Example.brought_eq_nil fun lexeme inCode => (codes e member lexeme inCode).2) count)

include fits closed noReturn codes in
theorem plain_settled (fitsSpliced : Position.Fits (spliceLines text (Example.inLines lead text)))
    (blockCodes : ∀ e ∈ Example.inBlocks lead text, ∀ lexeme ∈ Lexeme.all (Harness.code 0 e),
      lexeme.Settled lead ∧ lexeme.isComment = false) {result : List Char}
    (instrumented : plain lead text = .ok result) :
    ∀ lexeme ∈ Lexeme.all result, lexeme.Settled lead := by
  have settled := spliceLines_settled fits closed noReturn codes
  unfold plain at instrumented
  dsimp only at instrumented
  split at instrumented
  · next none =>
      cases instrumented
      exact fun lexeme member => settled lexeme member fun body isBlock =>
        spliceLines_opensBlock fits closed codes (List.isEmpty_iff.mp none) (isBlock ▸ member)
  · split at instrumented
    · next count =>
        have bodies := spliceLines_bodies fits closed codes count
        generalize spliceLines text (Example.inLines lead text) = spliced at *
        obtain rfl : replaceBlocks (blockCode (Example.inBlocks lead text)) 0 (Lexeme.all spliced) = result :=
          (spliceBlocks_all fitsSpliced (Example.inBlocks lead text)).symm.trans (Except.ok.inj instrumented)
        refine replaceBlocks_settled (p := .start) (blockCode_headed _) (Lexeme.leads_all _)
          (blockCode_settled blockCodes)
          (fun lexeme member other => settled lexeme member fun body same => absurd same (other body)) ?_
        rw [← Comment.blocks_eq]
        intro block member noCode
        -- The block comment of the text with the same number has the same body.
        obtain ⟨c, numbered, same⟩ : ∃ c, (c, block.2) ∈ (Comment.blocks text).zipIdx ∧ c.text = block.1.text := by
          have found := congrArg (·[block.2]?) bodies
          rw [List.getElem?_map, List.getElem?_map, List.mem_zipIdx_iff_getElem?.mp member] at found
          obtain ⟨c, isThere, same⟩ := Option.map_eq_some_iff.mp found.symm
          exact ⟨c, List.mem_zipIdx_iff_getElem?.mpr isThere, same⟩
        rw [Example.blockCode_eq numbered, List.map_eq_nil_iff, Example.ofBlock_eq_nil_iff] at noCode
        have found := Comment.block_mem_iff.mpr ⟨block.1, List.fst_mem_of_mem_zipIdx member, rfl⟩
        refine settled _ found fun body isBody => ?_
        cases isBody
        rw [← same]
        exact noCode
    · cases instrumented

end Plain

/-- Instrumentation leaves no example behind: where the texts of the examples are programs without comments, no
example is found in an instrumented text, and instrumenting it again gives the same text. -/
theorem program_idempotent (lead source : List Char) {forms : List Form} {result : List Char}
    (fits : Position.Fits (normalize source))
    (fitsSpliced : Position.Fits (spliceLines (normalize source) (Example.inLines lead (normalize source))))
    (read : Form.read (String.ofList (normalize source)) = .ok forms)
    (readable : ∀ e ∈ Example.inLines lead (normalize source) ++ Example.inBlocks lead (normalize source),
      Harness.Readable e)
    (uncommented : ∀ e ∈ Example.inLines lead (normalize source) ++ Example.inBlocks lead (normalize source),
      Harness.Uncommented e)
    (instrumented : program .sx lead source = .ok result) :
    Example.inLines lead result = [] ∧ Example.inBlocks lead result = [] ∧ program .sx lead result = .ok result := by
  have noReturn := normalize_noReturn source
  have codes (e : Example)
      (member : e ∈ Example.inLines lead (normalize source) ++ Example.inBlocks lead (normalize source))
      (lexeme : Lexeme) (inCode : lexeme ∈ Lexeme.all (Harness.code 0 e)) :
      lexeme.Settled lead ∧ lexeme.isComment = false := by
    have noReturns : e.NoReturn := by
      rcases List.mem_append.mp member with inLines | inBlocks
      · exact Example.inLines_noReturn lead noReturn e inLines
      · exact Example.inBlocks_noReturn lead noReturn e inBlocks
    have noComment := Harness.code_uncommented 0 (readable e member) (uncommented e member) lexeme inCode
    exact ⟨Lexeme.settled_of_uncommented (Form.closed_of_read (Harness.code_reads 0 (readable e member)) lexeme inCode)
      (Harness.code_noReturn 0 (readable e member) noReturns lexeme inCode) noComment, noComment⟩
  exact program_of_settled (plain_settled fits (Form.closed_of_read read) noReturn
    (fun e member => codes e (List.mem_append_left _ member)) fitsSpliced
    (fun e member => codes e (List.mem_append_right _ member)) instrumented)

/-- Examples in comments of both kinds among comments that stay; the text behind the block comment goes on with the last
word of the declaration. -/
theorem program_idempotent_mixed :
    ∃ result,
      program .sx [] "(f \"; > 0\") ; note\r\n; > 1\r\n; 1\r\n#| > (define y 2) y|#z #| b |#\n".toList = .ok result ∧
        Example.inLines [] result = [] ∧ Example.inBlocks [] result = [] ∧ program .sx [] result = .ok result :=
  ⟨_, rfl, program_idempotent [] "(f \"; > 0\") ; note\r\n; > 1\r\n; 1\r\n#| > (define y 2) y|#z #| b |#\n".toList
    (by decide) (by decide +kernel) rfl (by decide) (by decide) rfl⟩

end Instrument

end Exemplar
