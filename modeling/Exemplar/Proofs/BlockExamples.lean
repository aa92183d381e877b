import Exemplar.Proofs.BlockComments
import Exemplar.Proofs.CodeLexemes
import Exemplar.Proofs.Extraction
import Exemplar.Proofs.Insertion

/-!
# Examples in block comments

A block comment that holds examples is replaced by their code where it stands, with no line break behind it. The forms
of the text are kept, and those of the examples stand at the places of their comments, unless the last example of a
comment is a declaration whose text ends in a comment or in a word: the code behind it on the line is then drawn in.
-/

namespace Exemplar

open Reader

theorem Reader.Inserted.prepend {offset : Nat} {lexeme : Lexeme} {lexemes : List Lexeme}
    {inserted : List (Nat × List Form)} {result : List Char}
    (insertion : Inserted (offset + Text.byteLength lexeme.text) lexemes inserted result)
    (ends : lexeme.EndsBefore result) : Inserted offset (lexeme :: lexemes) inserted (lexeme.text ++ result) := by
  cases insertion with
  | nil => exact .nil
  | @cons _ before region after forms rest code result trivia ends' reads later =>
      have size : offset + Text.byteLength lexeme.text + Text.byteLength (Lexeme.texts before) =
          offset + Text.byteLength (Lexeme.texts (lexeme :: before)) := by simp [Nat.add_assoc]
      have size' : offset + Text.byteLength lexeme.text + Text.byteLength (Lexeme.texts (before ++ region)) =
          offset + Text.byteLength (Lexeme.texts ((lexeme :: before) ++ region)) := by simp [Nat.add_assoc]
      have joined : lexeme.text ++ (Lexeme.texts before ++ (code ++ result)) =
          Lexeme.texts (lexeme :: before) ++ (code ++ result) := by simp
      rw [size, joined]
      change Inserted offset ((lexeme :: before) ++ (region ++ after)) _ _
      refine .cons trivia (fun l member => ?_) reads (size' ▸ later)
      cases before with
      | nil => cases member; exact ends
      | cons first more => exact ends' l (by simpa using member)

namespace Comment

theorem blocksFrom_block (p : Position) (body : List Char) (rest : List Lexeme) :
    blocksFrom p (.block body :: rest) =
      ⟨true, body, ⟨p, p.advance (Lexeme.block body).text⟩⟩ :: blocksFrom (p.advance (Lexeme.block body).text) rest := by
  simp [blocksFrom, ofLexemes]

theorem blocksFrom_other (p : Position) {lexeme : Lexeme} (other : ∀ body, lexeme ≠ .block body)
    (rest : List Lexeme) : blocksFrom p (lexeme :: rest) = blocksFrom (p.advance lexeme.text) rest := by
  cases lexeme with
  | block body => exact absurd rfl (other body)
  | _ => simp [blocksFrom, ofLexemes]

end Comment

namespace Instrument

/-- The text of lexemes with the block comments that have code replaced by it; the first of them has the number
`index`. -/
def replaceBlocks (code : Nat → List (List Char)) (index : Nat) : List Lexeme → List Char
  | [] => []
  | .block body :: rest =>
      (if code index = [] then (Lexeme.block body).text else Text.joinLines (code index)) ++
        replaceBlocks code (index + 1) rest
  | lexeme :: rest => lexeme.text ++ replaceBlocks code index rest

variable {code : Nat → List (List Char)} {index : Nat}

theorem replaceBlocks_block {body : List Char} {rest : List Lexeme} (none : code index = []) :
    replaceBlocks code index (.block body :: rest) =
      (Lexeme.block body).text ++ replaceBlocks code (index + 1) rest := by
  rw [replaceBlocks, if_pos none]

theorem replaceBlocks_code {body : List Char} {rest : List Lexeme} (some : code index ≠ []) :
    replaceBlocks code index (.block body :: rest) =
      Text.joinLines (code index) ++ replaceBlocks code (index + 1) rest := by
  rw [replaceBlocks, if_neg some]

theorem replaceBlocks_other {lexeme : Lexeme} {rest : List Lexeme} (other : ∀ body, lexeme ≠ .block body) :
    replaceBlocks code index (lexeme :: rest) = lexeme.text ++ replaceBlocks code index rest := by
  cases lexeme with
  | block body => exact absurd rfl (other body)
  | _ => rfl

/-- Behind `front`, where the last comment was replaced, `kept` has been passed over since. -/
theorem spliceBlocks_eq {text : List Char} {lexemes : List Lexeme} (fits : Position.Fits text)
    (examples : List Example) (index : Nat) (front kept : List Char)
    (whole : text = front ++ (kept ++ Lexeme.texts lexemes)) :
    spliceBlocks text examples (Position.start.advance front)
        ((Comment.blocksFrom (Position.start.advance (front ++ kept)) lexemes).zipIdx index) =
      kept ++ replaceBlocks (blockCode examples) index lexemes := by
  induction lexemes generalizing front kept index with
  | nil =>
      rw [Lexeme.texts_nil, List.append_nil] at whole
      subst whole
      rw [replaceBlocks, List.append_nil]
      exact Position.slice_fileEnd fits
  | cons lexeme rest ih =>
      have pass (index : Nat) := ih index front (kept ++ lexeme.text) (by simp [whole])
      simp only [← List.append_assoc, Position.advance_append _ (front ++ kept)] at pass
      by_cases isBlock : ∃ body, lexeme = .block body
      · obtain ⟨body, rfl⟩ := isBlock
        rw [Comment.blocksFrom_block, List.zipIdx_cons]
        by_cases none : blockCode examples index = []
        · rw [spliceBlocks, none, replaceBlocks_block none, pass, List.append_assoc]
        · have next := ih (index + 1) (front ++ (kept ++ (Lexeme.block body).text)) [] (by simp [whole])
          have before : Position.slice text (Position.start.advance front) (Position.start.advance (front ++ kept)) =
              kept := by
            rw [whole] at fits ⊢
            exact Position.slice_advance fits
          rw [List.append_nil, ← List.append_assoc, Position.advance_append _ (front ++ kept)] at next
          rw [spliceBlocks.eq_def]
          dsimp only
          rw [before, next, replaceBlocks_code none, List.nil_append]
          split
          · next empty => exact absurd empty none
          · rfl
      · have other : ∀ body, lexeme ≠ .block body := fun body same => isBlock ⟨body, same⟩
        rw [Comment.blocksFrom_other _ other, replaceBlocks_other other, pass, List.append_assoc]

/-- Code that begins with no character of a word. -/
def Headed (code : Nat → List (List Char)) : Prop :=
  ∀ index, code index ≠ [] → ∃ c rest, Text.joinLines (code index) = c :: rest ∧ Lexeme.isSymbolChar c = false

theorem blockCode_headed (examples : List Example) : Headed (blockCode examples) := by
  intro index some
  unfold blockCode at some ⊢
  cases found : examples.filter (·.commentIndex == index) with
  | nil => rw [found] at some; exact absurd rfl some
  | cons e rest =>
      obtain ⟨c, others, begins, noSymbol⟩ := Harness.code_head e
      cases rest with
      | nil => exact ⟨c, others, begins, noSymbol⟩
      | cons next more =>
          exact ⟨c, others ++ '\n' :: Text.joinLines ((next :: more).map (Harness.code 0)),
            by rw [← List.cons_append, ← begins]; rfl, noSymbol⟩

/-- What ends before lexemes ends before the text in which their block comments are replaced. -/
theorem endsBefore_replaceBlocks {lexeme : Lexeme} {lexemes : List Lexeme} (headed : Headed code)
    (leads : Lexeme.Leads [] lexemes) (ends : lexeme.EndsBefore (Lexeme.texts lexemes)) :
    lexeme.EndsBefore (replaceBlocks code index lexemes) := by
  cases lexemes with
  | nil => exact ends
  | cons first rest =>
      have kept (index : Nat) : lexeme.EndsBefore (first.text ++ replaceBlocks code index rest) := by
        obtain ⟨c, tail, begins⟩ := List.exists_cons_of_ne_nil leads.1.text_ne_nil
        refine ends.of_head ?_
        rw [Lexeme.texts_cons, begins]
        rfl
      by_cases isBlock : ∃ body, first = .block body
      · obtain ⟨body, rfl⟩ := isBlock
        by_cases none : code index = []
        · rw [replaceBlocks_block none]
          exact kept _
        · obtain ⟨c, tail, begins, noSymbol⟩ := headed index none
          rw [replaceBlocks_code none, begins]
          exact ends.change (by decide) noSymbol
      · rw [replaceBlocks_other fun body same => isBlock ⟨body, same⟩]
        exact kept _

end Instrument

/-! ## Programs with their block comments replaced -/

namespace Comment

/-- The place where a comment starts, in bytes. -/
def place (text : List Char) (c : Comment) : Nat := Position.byteOffset text c.span.start

def behind (text : List Char) (c : Comment) : List Char := Position.slice text c.span.stop .fileEnd

/-- The text behind a comment on the line where it ends. -/
def restOfLine (text : List Char) (c : Comment) : List Char := (c.behind text).takeWhile (!Lexeme.isLineBreak ·)

/-- What stands behind a block comment stays what it is when the declaration `e` stands for the comment: a comment at
the end of `e` meets only blanks and comments without examples on the line, and a word at the end of `e` ends. -/
def Parted (lead text : List Char) (c : Comment) (e : Example) : Prop :=
  match (Lexeme.all e.input.value).getLast? with
  | some (.line _) =>
      (∀ lexeme ∈ Lexeme.all (c.restOfLine text), lexeme.isTrivia = true) ∧ Example.inBlocks lead (c.restOfLine text) = []
  | some (.word _) => ∀ d ∈ (c.behind text).head?, Lexeme.isSymbolChar d = false
  | _ => True

instance (lead text : List Char) (c : Comment) (e : Example) : Decidable (c.Parted lead text e) :=
  match last : (Lexeme.all e.input.value).getLast? with
  | some (.line _) => decidable_of_iff ((∀ lexeme ∈ Lexeme.all (c.restOfLine text), lexeme.isTrivia = true) ∧
      Example.inBlocks lead (c.restOfLine text) = []) (by rw [Parted, last])
  | some (.word _) => @decidable_of_iff _ (∀ d ∈ (c.behind text).head?, Lexeme.isSymbolChar d = false)
      (by rw [Parted, last]) (Option.decidableForallMem _)
  | some (.string _) | some (.block _) | some (.mark _) | none => isTrue (by rw [Parted, last]; trivial)

/-- The place of a comment and the text behind it, by a cut of the lexemes. -/
theorem place_behind_of_cut {text : List Char} {front rest : List Lexeme} {lexeme : Lexeme} {c : Comment}
    (fits : Position.Fits text) (whole : Lexeme.all text = front ++ lexeme :: rest)
    (span : c.span = ⟨Position.start.advance (Lexeme.texts front),
      (Position.start.advance (Lexeme.texts front)).advance lexeme.text⟩) :
    c.place text = Text.byteLength (Lexeme.texts front) ∧ c.behind text = Lexeme.texts rest := by
  have cut : text = Lexeme.texts front ++ Lexeme.texts (lexeme :: rest) := by
    rw [← Lexeme.texts_append, ← whole, Lexeme.texts_all]
  have cut' : text = (Lexeme.texts front ++ lexeme.text) ++ Lexeme.texts rest := by simp [cut]
  constructor
  · have bytes := Position.byteOffset_advance (cut ▸ fits)
    rw [← cut] at bytes
    rw [place, span, bytes]
  · rw [behind, span, ← Position.advance_append]
    rw [cut'] at fits ⊢
    exact Position.slice_fileEnd fits

end Comment

namespace Example

/-- Those of the numbered block comments that hold examples, each with its examples. -/
def carriers (lead : List Char) (blocks : List (Comment × Nat)) : List (Comment × List Example) :=
  (blocks.map fun block => (block.1, ofBlock lead block)).filter (·.2 ≠ [])

/-- The block comments of a text that hold examples, each with its examples. -/
def byBlock (lead text : List Char) : List (Comment × List Example) :=
  carriers lead (Comment.blocks text).zipIdx

theorem carriers_skip {lead : List Char} {block : Comment × Nat} (none : ofBlock lead block = [])
    (rest : List (Comment × Nat)) : carriers lead (block :: rest) = carriers lead rest := by
  rw [carriers, List.map_cons, List.filter_cons_of_neg (by simp [none])]
  rfl

theorem carriers_take {lead : List Char} {block : Comment × Nat} (some : ofBlock lead block ≠ [])
    (rest : List (Comment × Nat)) :
    carriers lead (block :: rest) = (block.1, ofBlock lead block) :: carriers lead rest := by
  rw [carriers, List.map_cons, List.filter_cons_of_pos (by simp [some])]
  rfl

end Example

namespace Instrument

variable {code : Nat → List (List Char)} {index : Nat}

theorem replaceBlocks_spared {left : List Lexeme} {p : Position}
    (spared : ∀ block ∈ (Comment.blocksFrom p left).zipIdx index, code block.2 = []) (right : List Lexeme) :
    ∃ next, replaceBlocks code index (left ++ right) = Lexeme.texts left ++ replaceBlocks code next right := by
  induction left generalizing p index with
  | nil => exact ⟨index, rfl⟩
  | cons lexeme rest ih =>
      by_cases isBlock : ∃ body, lexeme = .block body
      · obtain ⟨body, rfl⟩ := isBlock
        rw [Comment.blocksFrom_block, List.zipIdx_cons, List.forall_mem_cons] at spared
        obtain ⟨next, same⟩ := ih spared.2
        refine ⟨next, ?_⟩
        rw [List.cons_append, replaceBlocks_block spared.1, same, Lexeme.texts_cons, List.append_assoc]
      · have other : ∀ body, lexeme ≠ .block body := fun body same => isBlock ⟨body, same⟩
        rw [Comment.blocksFrom_other _ other] at spared
        obtain ⟨next, same⟩ := ih spared
        refine ⟨next, ?_⟩
        rw [List.cons_append, replaceBlocks_other other, same, Lexeme.texts_cons, List.append_assoc]

/-- A line whose rest holds only blanks and comments without examples keeps this rest. -/
theorem takeWhile_replaceBlocks {lead line : List Char} {lexemes : List Lexeme} {p : Position} (headed : Headed code)
    (leads : Lexeme.Leads [] lexemes) (isLine : (Lexeme.texts lexemes).takeWhile (!Lexeme.isLineBreak ·) = line)
    (trivia : ∀ lexeme ∈ Lexeme.all line, lexeme.isTrivia = true) (none : Example.inBlocks lead line = [])
    (codes : ∀ block ∈ (Comment.blocksFrom p lexemes).zipIdx index,
      Example.ofBlock lead block = [] → code block.2 = []) :
    (replaceBlocks code index lexemes).takeWhile (!Lexeme.isLineBreak ·) = line := by
  have breaks := Lexeme.head_dropWhile_break (Lexeme.texts lexemes)
  have cut := List.takeWhile_append_dropWhile (p := (!Lexeme.isLineBreak ·)) (l := Lexeme.texts lexemes)
  have unbroken : ∀ c ∈ line, (!Lexeme.isLineBreak c) = true := by
    intro c member
    rw [← isLine] at member
    exact List.mem_takeWhile_imp (p := (!Lexeme.isLineBreak ·)) member
  rw [isLine] at cut
  generalize (Lexeme.texts lexemes).dropWhile (!Lexeme.isLineBreak ·) = tail at breaks cut
  have lexed : lexemes = Lexeme.all line ++ Lexeme.all tail := by
    have all := Lexeme.all_of_leads leads
    rw [List.append_nil, Lexeme.all_nil, List.append_nil, ← cut,
      Lexeme.all_append (fun l member => Lexeme.not_stray_of_trivia (trivia l member))
        fun l _ => l.endsBefore_of_break breaks] at all
    exact all.symm
  have spared : ∀ block ∈ (Comment.blocksFrom p (Lexeme.all line)).zipIdx index, code block.2 = [] := by
    intro block member
    have bodies := Comment.blocksFrom_bodies p .start (Lexeme.all line)
    have body : block.1.text ∈ (Comment.blocks line).map (·.text) := by
      have mapped := List.mem_map_of_mem (f := Comment.text) (List.fst_mem_of_mem_zipIdx member)
      rw [bodies, ← Comment.blocks_eq] at mapped
      exact mapped
    obtain ⟨c, found, same⟩ := List.mem_map.mp body
    refine codes block ?_ (Example.ofBlock_eq_nil_iff.mpr (same ▸ Example.inBlocks_eq_nil_iff.mp none c found))
    rw [lexed, Comment.blocksFrom_append, List.zipIdx_append]
    exact List.mem_append_left _ member
  obtain ⟨next, same⟩ := replaceBlocks_spared spared (Lexeme.all tail)
  have ends : (Lexeme.line []).EndsBefore (replaceBlocks code next (Lexeme.all tail)) := by
    refine endsBefore_replaceBlocks headed (Lexeme.leads_all tail) ?_
    rw [Lexeme.texts_all]
    exact breaks
  rw [lexed, same, Lexeme.texts_all]
  refine ((Lexeme.takeWhile_append_iff _ _ _).mpr ⟨unbroken, fun c member => ?_⟩).symm
  rw [ends c member]
  rfl

/-- The code for a block comment is that of its examples; these are programs, and their code can stand where the
comment does. -/
structure Fitting (lead text : List Char) (code : Nat → List (List Char)) (block : Comment × Nat) : Prop where
  code : code block.2 = (Example.ofBlock lead block).map (Harness.code 0)
  readable : ∀ e ∈ Example.ofBlock lead block, Harness.Readable e
  parted : ∀ e ∈ (Example.ofBlock lead block).getLast?, Harness.isDeclaration e.input.value = true →
    block.1.Parted lead text e

theorem Fitting.parts {lead text : List Char} {block : Comment × Nat} {rest : List Lexeme} {p : Position}
    (fitting : Fitting lead text code block) (some : Example.ofBlock lead block ≠ []) (headed : Headed code)
    (behind : block.1.behind text = Lexeme.texts rest) (leads : Lexeme.Leads [] rest)
    (later : ∀ block ∈ (Comment.blocksFrom p rest).zipIdx index, Fitting lead text code block) :
    Lexeme.Parts (Text.joinLines (code block.2)) (replaceBlocks code index rest) := by
  obtain ⟨e, final⟩ := Option.ne_none_iff_exists'.mp (mt List.getLast?_eq_none_iff.mp some)
  have readable := fitting.readable e (List.mem_of_getLast? final)
  have closed : ∀ line ∈ (Example.ofBlock lead block).map (Harness.code 0),
      ∀ lexeme ∈ Lexeme.all line, lexeme.isStray = false := by
    intro line member
    obtain ⟨e, found, rfl⟩ := List.mem_map.mp member
    exact Form.closed_of_read (Harness.code_reads 0 (fitting.readable e found))
  obtain ⟨c, others, begins, _⟩ := Harness.code_head e
  rw [Lexeme.Parts, fitting.code,
    Lexeme.getLast_joinLines closed (by rw [List.getLast?_map, final]; rfl) (by rw [begins]; exact List.cons_ne_nil _ _)]
  cases declared : Harness.isDeclaration e.input.value with
  | false =>
      rw [Harness.code_last readable declared]
      trivial
  | true =>
      have verbatim : Harness.code 0 e = e.input.value := if_pos declared
      have parted := fitting.parted e final declared
      rw [Comment.Parted] at parted
      rw [verbatim]
      cases last : (Lexeme.all e.input.value).getLast? with
      | none => trivial
      | some lexeme =>
          rw [last] at parted
          cases lexeme with
          | line body =>
              obtain ⟨trivia, none⟩ := parted
              dsimp only
              rw [takeWhile_replaceBlocks headed leads (by rw [← behind]; rfl) trivia none fun block member empty => by
                rw [(later block member).code, empty]; rfl]
              exact trivia
          | word characters =>
              have ends : (Lexeme.word characters).EndsBefore (Lexeme.texts rest) := behind ▸ parted
              exact endsBefore_replaceBlocks headed leads ends
          | _ => trivial

theorem replaceBlocks_inserted {lead text : List Char} {front lexemes : List Lexeme} (fits : Position.Fits text)
    (headed : Headed code) (whole : Lexeme.all text = front ++ lexemes)
    (fitting : ∀ block ∈ (Comment.blocksFrom (Position.start.advance (Lexeme.texts front)) lexemes).zipIdx index,
      Fitting lead text code block) :
    Inserted (Text.byteLength (Lexeme.texts front)) lexemes
      ((Example.carriers lead
        ((Comment.blocksFrom (Position.start.advance (Lexeme.texts front)) lexemes).zipIdx index)).map fun block =>
          (block.1.place text, block.2.flatMap Harness.forms))
      (replaceBlocks code index lexemes) := by
  induction lexemes generalizing front index with
  | nil => exact .nil
  | cons lexeme rest ih =>
      have leads := Lexeme.leads_all text
      rw [whole] at leads
      obtain ⟨opens, leadsRest⟩ := (Lexeme.leads_append.mp leads).2
      rw [List.append_nil] at opens
      have texts : Lexeme.texts (front ++ [lexeme]) = Lexeme.texts front ++ lexeme.text := by simp
      have next (index : Nat) := @ih index (front ++ [lexeme]) (by simp [whole])
      simp only [texts, Position.advance_append, Text.byteLength_append] at next
      have ends (index : Nat) : lexeme.EndsBefore (replaceBlocks code index rest) :=
        endsBefore_replaceBlocks headed leadsRest opens.endsBefore
      by_cases isBlock : ∃ body, lexeme = .block body
      · obtain ⟨body, rfl⟩ := isBlock
        obtain ⟨c, blocks, span⟩ : ∃ c : Comment,
            Comment.blocksFrom (Position.start.advance (Lexeme.texts front)) (.block body :: rest) = c :: _ ∧
              c.span = ⟨_, _⟩ := ⟨_, Comment.blocksFrom_block _ body rest, rfl⟩
        rw [blocks, List.zipIdx_cons] at fitting ⊢
        obtain ⟨here, later⟩ := List.forall_mem_cons.mp fitting
        have recurse := next (index + 1) later
        by_cases none : Example.ofBlock lead (c, index) = []
        · have noCode : code index = [] := by rw [here.code, none]; rfl
          rw [Example.carriers_skip none, replaceBlocks_block noCode]
          exact recurse.prepend (ends _)
        · have hasCode : code index ≠ [] := by
            rw [here.code, ne_eq, List.map_eq_nil_iff]
            exact none
          obtain ⟨place, behind⟩ := Comment.place_behind_of_cut fits whole span
          have parts := here.parts none headed behind leadsRest later
          have readCode := Harness.codes_read (fun _ => 0) here.readable
          rw [← here.code] at readCode
          rw [Example.carriers_take none, List.map_cons, replaceBlocks_code hasCode, place]
          -- The stretch is the comment alone, with nothing before it.
          change Inserted _ ([] ++ ([.block body] ++ rest)) ((_ + Text.byteLength (Lexeme.texts []), _) :: _)
            (Lexeme.texts [] ++ _)
          refine .cons (by simp [Lexeme.isTrivia]) (by simp) (fun done => ?_) ?_
          · rw [Outline.steps_parts parts (Form.closed_of_read readCode), Form.steps_of_read readCode]
            rfl
          · have size : Lexeme.texts ([] ++ [.block body]) = (Lexeme.block body).text := by simp
            rw [size]
            exact recurse
      · have other : ∀ body, lexeme ≠ .block body := fun body same => isBlock ⟨body, same⟩
        rw [Comment.blocksFrom_other _ other] at fitting ⊢
        rw [replaceBlocks_other other]
        exact (next index fitting).prepend (ends _)

theorem spliceLines_nil (text : List Char) : spliceLines text [] = text := Position.slice_whole text

theorem plain_of_none {lead text : List Char} (noLines : Example.inLines lead text = [])
    (noBlocks : Example.inBlocks lead text = []) : plain lead text = .ok text := by
  refine (if_pos (List.isEmpty_iff.mpr noBlocks)).trans ?_
  rw [noLines, spliceLines_nil]

theorem spliceBlocks_all {text : List Char} (fits : Position.Fits text) (examples : List Example) :
    spliceBlocks text examples .start (Comment.blocks text).zipIdx =
      replaceBlocks (blockCode examples) 0 (Lexeme.all text) := by
  have whole : text = [] ++ ([] ++ Lexeme.texts (Lexeme.all text)) := by simp
  rw [Comment.blocks_eq]
  exact spliceBlocks_eq fits examples 0 [] [] whole

/-- Instrumenting a text without examples in line comments replaces its block comments. -/
theorem plain_blocks {lead text : List Char} (fits : Position.Fits text) (noLines : Example.inLines lead text = []) :
    plain lead text = .ok (replaceBlocks (blockCode (Example.inBlocks lead text)) 0 (Lexeme.all text)) := by
  have replaced := spliceBlocks_all fits (Example.inBlocks lead text)
  unfold plain
  dsimp only
  rw [noLines, spliceLines_nil]
  split
  · next none =>
      have empty : Example.inBlocks lead text = [] := List.isEmpty_iff.mp none
      have spared : ∀ block ∈ (Comment.blocksFrom .start (Lexeme.all text)).zipIdx 0,
          blockCode (Example.inBlocks lead text) block.2 = [] := by
        intro block _
        rw [empty]
        rfl
      obtain ⟨next, same⟩ := replaceBlocks_spared spared []
      rw [List.append_nil] at same
      rw [same, replaceBlocks, List.append_nil, Lexeme.texts_all]
  · rw [if_pos rfl]
    exact congrArg Except.ok replaced

theorem replaceBlocks_all {lead text : List Char} (fits : Position.Fits text) (headed : Headed code)
    (fitting : ∀ block ∈ (Comment.blocks text).zipIdx, Fitting lead text code block) :
    Inserted 0 (Lexeme.all text)
      ((Example.byBlock lead text).map fun block => (block.1.place text, block.2.flatMap Harness.forms))
      (replaceBlocks code 0 (Lexeme.all text)) := by
  rw [Comment.blocks_eq] at fitting
  rw [Example.byBlock, Comment.blocks_eq]
  exact replaceBlocks_inserted fits headed (List.nil_append _).symm fitting

/-- The program behind a text whose block comments with examples are replaced: every form of the text is kept, in
order, and where such a comment stood are the forms of its examples. A declaration that ends the examples of a comment
must not draw in what follows the comment. -/
theorem program_block_forms (lead source : List Char) {nodes : List Node} (fits : Position.Fits (normalize source))
    (read : Node.read (String.ofList (normalize source)) = .ok nodes)
    (noLines : Example.inLines lead (normalize source) = [])
    (outside : ∀ block ∈ Example.byBlock lead (normalize source),
      Example.Outside (block.1.place (normalize source)) nodes)
    (readable : ∀ e ∈ Example.inBlocks lead (normalize source), Harness.Readable e)
    (parted : ∀ block ∈ Example.byBlock lead (normalize source), ∀ e ∈ block.2.getLast?,
      Harness.isDeclaration e.input.value = true → block.1.Parted lead (normalize source) e) :
    ∃ text, program .sx lead source = .ok text ∧
      Form.read (String.ofList text) = .ok (Node.formsWith nodes
        ((Example.byBlock lead (normalize source)).map fun block =>
          (block.1.place (normalize source), block.2.flatMap Harness.forms))) := by
  have members {block : Comment × Nat} (member : block ∈ (Comment.blocks (normalize source)).zipIdx)
      (some : Example.ofBlock lead block ≠ []) :
      (block.1, Example.ofBlock lead block) ∈ Example.byBlock lead (normalize source) :=
    List.mem_filter.mpr ⟨List.mem_map_of_mem member, by simpa using some⟩
  have fitting : ∀ block ∈ (Comment.blocks (normalize source)).zipIdx,
      Fitting lead (normalize source) (blockCode (Example.inBlocks lead (normalize source))) block := by
    intro block member
    refine ⟨Example.blockCode_eq member, fun e found => readable e ?_, fun e final => ?_⟩
    · rw [Example.inBlocks_eq_flatMap]
      exact List.mem_flatMap.mpr ⟨block, member, found⟩
    · have some : Example.ofBlock lead block ≠ [] := List.ne_nil_of_mem (List.mem_of_getLast? final)
      exact parted _ (members member some) e final
  refine ⟨_, plain_blocks fits noLines, Form.read_inserted read
    (replaceBlocks_all fits (blockCode_headed _) fitting)
    (List.forall_mem_map.mpr outside) (List.forall_mem_map.mpr fun block member => ?_)⟩
  obtain ⟨numbered, isBlock, rfl⟩ := List.mem_map.mp (List.mem_filter.mp member).1
  exact (Form.read_ok_iff.mp (Harness.codes_read (fun _ => 0) (fitting numbered isBlock).readable)).2

/-- Comments with one and with two examples. The declarations among these end in a comment before another comment, in
a word before a bracket, and in a bracket before a word. -/
theorem program_block_forms_tight :
    ∃ text,
      program .sx [] "(f) #| > (define x 1) ; x |# ; y\n#| > 2\n| 2\n* > (define y 3) y|#(g) #| > (define z)|#h".toList =
          .ok text ∧
        Form.read (String.ofList text) =
          .ok [.group .round [.atom (.symbol "f")],
            .group .round [.atom (.symbol "define"), .atom (.symbol "x"), .atom (.number 1)],
            Harness.inputForm [.atom (.number 2)], Harness.outputForm 3 false [.atom (.number 2)],
            .group .round [.atom (.symbol "define"), .atom (.symbol "y"), .atom (.number 3)], .atom (.symbol "y"),
            .group .round [.atom (.symbol "g")],
            .group .round [.atom (.symbol "define"), .atom (.symbol "z")], .atom (.symbol "h")] :=
  program_block_forms []
    "(f) #| > (define x 1) ; x |# ; y\n#| > 2\n| 2\n* > (define y 3) y|#(g) #| > (define z)|#h".toList (by decide) rfl
    (by decide) (by decide) (by decide) (by decide)

/-- A declaration that ends in a comment hides the definition behind its block comment, and one that ends in a word
takes the next word in. -/
theorem program_hides_code :
    (∃ source nodes, source = "#| > (define x 1) ; one |# (define y 2)\n".toList ∧
      Node.read (String.ofList (normalize source)) = .ok nodes ∧ Example.inLines [] (normalize source) = [] ∧
      (∀ block ∈ Example.byBlock [] (normalize source), Example.Outside (block.1.place (normalize source)) nodes) ∧
      (∀ e ∈ Example.inBlocks [] (normalize source), Harness.Readable e) ∧
      ¬ ∃ text, program .sx [] source = .ok text ∧
        Form.read (String.ofList text) = .ok (Node.formsWith nodes
          ((Example.byBlock [] (normalize source)).map fun block =>
            (block.1.place (normalize source), block.2.flatMap Harness.forms)))) ∧
    program .sx [] "#| > (define x 1) x|#y".toList = .ok "(define x 1) xy".toList := by
  refine ⟨⟨_, _, rfl, rfl, by decide, by decide, by decide, ?_⟩, rfl⟩
  rintro ⟨text, instrumented, read⟩
  have spliced : program .sx [] "#| > (define x 1) ; one |# (define y 2)\n".toList =
      .ok "(define x 1) ; one  (define y 2)\n".toList := rfl
  have hidden : Form.read (String.ofList "(define x 1) ; one  (define y 2)\n".toList) = .ok [_] := rfl
  obtain rfl := Except.ok.inj (spliced.symm.trans instrumented)
  have lengths := congrArg List.length (Except.ok.inj (hidden.symm.trans read))
  exact absurd lengths (by decide)

end Instrument

end Exemplar
