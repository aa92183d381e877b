import Exemplar.Proofs.KeptCode

/-!
# Block comments behind replaced line examples

Replacing the examples of line comments takes the block comments out of their regions and brings in those of their
code. The block comments of a text are found again when each example brings in what it takes out.
-/

namespace Exemplar

set_option maxRecDepth 2000

namespace Position

theorem le_trans {p q r : Position} (first : p ≤ q) (second : q ≤ r) : p ≤ r := by
  change _ ∨ _ at first second ⊢
  omega

theorem lt_of_lt_of_le {p q r : Position} (first : p < q) (second : q ≤ r) : p < r := by
  change _ ∨ _ at first second ⊢
  omega

theorem not_lt_of_le {p q : Position} (ordered : p ≤ q) : ¬ q < p := by
  change _ ∨ _ at ordered
  change ¬ (_ ∨ _)
  omega

theorem lt_after (p : Position) (c : Char) : p < p.after c := by
  change _ ∨ _
  unfold after
  split <;> simp

theorem le_advance (p : Position) (text : List Char) : p ≤ p.advance text := by
  induction text generalizing p with
  | nil => exact .inr ⟨rfl, Nat.le_refl _⟩
  | cons c rest ih =>
      have first : p ≤ p.after c := (lt_after p c).imp id fun same => ⟨same.1, Nat.le_of_lt same.2⟩
      exact le_trans first (ih (p.after c))

theorem lt_advance (p : Position) {text : List Char} (nonempty : text ≠ []) : p < p.advance text := by
  obtain ⟨c, rest, rfl⟩ := List.exists_cons_of_ne_nil nonempty
  exact lt_of_lt_of_le (lt_after p c) (le_advance _ rest)

end Position

namespace Comment

/-- The block comments of the lexemes from `p` on. -/
def blocksFrom (p : Position) (lexemes : List Lexeme) : List Comment :=
  (ofLexemes p lexemes).filter (·.isBlock)

theorem blocks_eq (text : List Char) : blocks text = blocksFrom .start (Lexeme.all text) := by
  rw [blocks, scan_eq]
  rfl

theorem blocksFrom_append (p : Position) (left right : List Lexeme) :
    blocksFrom p (left ++ right) = blocksFrom p left ++ blocksFrom (p.advance (Lexeme.texts left)) right := by
  rw [blocksFrom, ofLexemes_append, List.filter_append]
  rfl

/-- Comments start within the lexemes they are of. -/
theorem start_between {p : Position} {lexemes : List Lexeme} {c : Comment} (member : c ∈ ofLexemes p lexemes) :
    p ≤ c.span.start ∧ c.span.start < p.advance (Lexeme.texts lexemes) := by
  obtain ⟨before, lexeme, after, rfl, isComment⟩ := mem_ofLexemes.mp member
  obtain ⟨starts, nonempty⟩ : c.span.start = p.advance (Lexeme.texts before) ∧ lexeme.text ≠ [] := by
    cases lexeme <;> cases isComment <;> exact ⟨rfl, List.cons_ne_nil _ _⟩
  rw [starts, Lexeme.texts_append, Position.advance_append]
  exact ⟨Position.le_advance _ _, Position.lt_advance _ (by simp [nonempty])⟩

theorem blocksFrom_bodies (p q : Position) (lexemes : List Lexeme) :
    (blocksFrom p lexemes).map (·.text) = (blocksFrom q lexemes).map (·.text) := by
  induction lexemes generalizing p q with
  | nil => rfl
  | cons lexeme rest ih =>
      have later := ih (p.advance lexeme.text) (q.advance lexeme.text)
      rw [← List.singleton_append, blocksFrom_append, blocksFrom_append, List.map_append, List.map_append]
      rw [Lexeme.texts_cons, Lexeme.texts_nil, List.append_nil, later]
      cases lexeme <;> rfl

end Comment

namespace Example

/-- The texts of the block comments in the region of an example. -/
def taken (blocks : List Comment) (e : Example) : List (List Char) :=
  (blocks.filter fun c => e.input.span.start ≤ c.span.start ∧ c.span.start < e.stop).map (·.text)

/-- The texts of the block comments in the code of an example. -/
def brought (e : Example) : List (List Char) :=
  (Comment.blocks (Harness.code 0 e)).map (·.text)

/-- The texts of block comments with what each example brings in for what it takes out. -/
def exchange (blocks : List Comment) : List Example → List (List Char)
  | [] => blocks.map (·.text)
  | e :: rest =>
      (blocks.takeWhile (·.span.start < e.input.span.start)).map (·.text) ++
        (e.brought ++ exchange (blocks.dropWhile (·.span.start < e.stop)) rest)

section Cut

variable {left region right : List Comment} {e : Example}
  (before : ∀ c ∈ left, c.span.start < e.input.span.start)
  (within : ∀ c ∈ region, e.input.span.start ≤ c.span.start ∧ c.span.start < e.stop)
  (behind : ∀ c ∈ right, e.stop ≤ c.span.start)

include before in
/-- What stands before the region of an example is not taken out. -/
theorem taken_append : taken (left ++ right) e = taken right e := by
  have none : left.filter (fun c => e.input.span.start ≤ c.span.start ∧ c.span.start < e.stop) = [] := by
    rw [List.filter_eq_nil_iff]
    intro c member
    rw [decide_eq_true_eq]
    exact fun both => Position.not_lt_of_le both.1 (before c member)
  rw [taken, List.filter_append, none, List.nil_append]
  rfl

include before within behind in
theorem taken_cut : taken (left ++ (region ++ right)) e = region.map (·.text) := by
  have all : region.filter (fun c => e.input.span.start ≤ c.span.start ∧ c.span.start < e.stop) = region := by
    rw [List.filter_eq_self]
    intro c member
    exact decide_eq_true (within c member)
  have none : right.filter (fun c => e.input.span.start ≤ c.span.start ∧ c.span.start < e.stop) = [] := by
    rw [List.filter_eq_nil_iff]
    intro c member
    rw [decide_eq_true_eq]
    exact fun both => Position.not_lt_of_le (behind c member) both.2
  rw [taken_append before, taken, List.filter_append, all, none, List.append_nil]

include before within behind in
theorem exchange_cut (ordered : e.input.span.start ≤ e.stop) (rest : List Example) :
    exchange (left ++ (region ++ right)) (e :: rest) = left.map (·.text) ++ (e.brought ++ exchange right rest) := by
  have front : (left ++ (region ++ right)).takeWhile (·.span.start < e.input.span.start) = left := by
    refine takeWhile_cut (fun c member => decide_eq_true (before c member)) fun c member => decide_eq_false ?_
    rcases List.mem_append.mp member with inRegion | inRight
    · exact Position.not_lt_of_le (within c inRegion).1
    · exact Position.not_lt_of_le (Position.le_trans ordered (behind c inRight))
  have back : (left ++ (region ++ right)).dropWhile (·.span.start < e.stop) = right := by
    rw [← List.append_assoc]
    refine dropWhile_cut (fun c member => decide_eq_true ?_) fun c member =>
      decide_eq_false (Position.not_lt_of_le (behind c member))
    rcases List.mem_append.mp member with inLeft | inRegion
    · exact Position.lt_of_lt_of_le (before c inLeft) ordered
    · exact (within c inRegion).2
  rw [exchange, front, back]

end Cut

variable {p : Position} {lexemes : List Lexeme} {examples : List Example}

theorem blocks_cut {before region : List Lexeme} (after : List Lexeme) {e : Example}
    (starts : e.input.span.start = p.advance (Lexeme.texts before))
    (stops : e.stop = p.advance (Lexeme.texts (before ++ region))) :
    ∃ left inside right, Comment.blocksFrom p (before ++ (region ++ after)) = left ++ (inside ++ right) ∧
      left = Comment.blocksFrom p before ∧
      right = Comment.blocksFrom (p.advance (Lexeme.texts (before ++ region))) after ∧
      (∀ c ∈ left, c.span.start < e.input.span.start) ∧
      (∀ c ∈ inside, e.input.span.start ≤ c.span.start ∧ c.span.start < e.stop) ∧
      (∀ c ∈ right, e.stop ≤ c.span.start) ∧ e.input.span.start ≤ e.stop := by
  refine ⟨_, Comment.blocksFrom (p.advance (Lexeme.texts before)) region, _, ?_, rfl, rfl, ?_, ?_, ?_, ?_⟩
  · rw [Comment.blocksFrom_append, Comment.blocksFrom_append, ← Position.advance_append, ← Lexeme.texts_append]
  · intro c member
    rw [starts]
    exact (Comment.start_between (List.mem_filter.mp member).1).2
  · intro c member
    rw [starts, stops, Lexeme.texts_append, Position.advance_append]
    exact Comment.start_between (List.mem_filter.mp member).1
  · intro c member
    rw [stops]
    exact (Comment.start_between (List.mem_filter.mp member).1).1
  · rw [starts, stops, Lexeme.texts_append, Position.advance_append]
    exact Position.le_advance _ _

theorem Spliced.bodies {result : List Lexeme} (spliced : Spliced p lexemes examples result) (q : Position) :
    (Comment.blocksFrom q result).map (·.text) = exchange (Comment.blocksFrom p lexemes) examples := by
  induction spliced generalizing q with
  | nil => exact Comment.blocksFrom_bodies q _ _
  | @cons p before region after result e rest isRegion starts stops later ih =>
      obtain ⟨left, inside, right, cut, rfl, rfl, isBefore, isWithin, isBehind, ordered⟩ :=
        blocks_cut after starts stops
      rw [cut, exchange_cut isBefore isWithin isBehind ordered, Comment.blocksFrom_append, Comment.blocksFrom_append,
        List.map_append, List.map_append, ih, Comment.blocksFrom_bodies q p]
      congr 2
      rw [brought, Comment.blocks_eq]
      exact Comment.blocksFrom_bodies _ .start _

/-- What later examples take out stands behind the region of the first. -/
theorem Laid.taken_later {before region after : List Lexeme} {e other : Example} {rest : List Example}
    (starts : e.input.span.start = p.advance (Lexeme.texts before))
    (stops : e.stop = p.advance (Lexeme.texts (before ++ region)))
    (later : Laid (p.advance (Lexeme.texts (before ++ region))) after rest) (member : other ∈ rest) :
    taken (Comment.blocksFrom p (before ++ (region ++ after))) other =
      taken (Comment.blocksFrom (p.advance (Lexeme.texts (before ++ region))) after) other := by
  obtain ⟨left, inside, right, cut, -, rfl, isBefore, isWithin, -, ordered⟩ := blocks_cut after starts stops
  obtain ⟨front, found, behind, -, -, starts', -⟩ := later.region member
  have follows : e.stop ≤ other.input.span.start := by
    rw [stops, starts']
    exact Position.le_advance _ _
  rw [cut, ← List.append_assoc]
  refine taken_append fun c inFront => Position.lt_of_lt_of_le ?_ follows
  rcases List.mem_append.mp inFront with inLeft | inInside
  · exact Position.lt_of_lt_of_le (isBefore c inLeft) ordered
  · exact (isWithin c inInside).2

/-- Where each example brings in what it takes out, the block comments stay. -/
theorem Laid.exchange_eq (laid : Laid p lexemes examples)
    (same : ∀ e ∈ examples, e.brought = e.taken (Comment.blocksFrom p lexemes)) :
    exchange (Comment.blocksFrom p lexemes) examples = (Comment.blocksFrom p lexemes).map (·.text) := by
  induction laid with
  | nil => rfl
  | @cons p before region after e rest isRegion starts stops later ih =>
      obtain ⟨left, inside, right, cut, rfl, rfl, isBefore, isWithin, isBehind, ordered⟩ :=
        blocks_cut after starts stops
      have tail := ih fun other member =>
        (same other (by simp [member])).trans (Laid.taken_later starts stops later member)
      have here := same e (by simp)
      rw [cut, taken_cut isBefore isWithin isBehind] at here
      rw [cut, exchange_cut isBefore isWithin isBehind ordered, tail, here, List.map_append, List.map_append]

theorem Laid.exchange_length (laid : Laid p lexemes examples) :
    (exchange (Comment.blocksFrom p lexemes) examples).length +
        (examples.flatMap (·.taken (Comment.blocksFrom p lexemes))).length =
      (Comment.blocksFrom p lexemes).length + (examples.flatMap (·.brought)).length := by
  induction laid with
  | nil => simp [exchange]
  | @cons p before region after e rest isRegion starts stops later ih =>
      obtain ⟨left, inside, right, cut, rfl, rfl, isBefore, isWithin, isBehind, ordered⟩ :=
        blocks_cut after starts stops
      have takenLater : rest.flatMap (·.taken (Comment.blocksFrom p (before ++ (region ++ after)))) =
          rest.flatMap (·.taken (Comment.blocksFrom (p.advance (Lexeme.texts (before ++ region))) after)) :=
        List.flatMap_congr fun other member => Laid.taken_later starts stops later member
      rw [List.flatMap_cons, takenLater, cut, taken_cut isBefore isWithin isBehind,
        exchange_cut isBefore isWithin isBehind ordered]
      simp only [List.length_append, List.length_map, List.flatMap_cons]
      omega

end Example

namespace Instrument

/-- The block comments behind replaced line examples are those of the text, with what each example brings in for what
it takes out. Where the two are equal for each example, the same block comments are found again and replaced.
Instrumentation fails exactly when block comments hold examples and the number of block comments has changed. -/
theorem program_blocks (lead source : List Char) {text : List Char} (normalized : normalize source = text)
    (fits : Position.Fits text) (closed : ∀ lexeme ∈ Lexeme.all text, lexeme.isStray = false)
    (closedCode : ∀ e ∈ Example.inLines lead text, ∀ lexeme ∈ Lexeme.all (Harness.code 0 e), lexeme.isStray = false) :
    (Comment.blocks (spliceLines text (Example.inLines lead text))).map (·.text) =
        Example.exchange (Comment.blocks text) (Example.inLines lead text) ∧
      ((∀ e ∈ Example.inLines lead text, e.brought = e.taken (Comment.blocks text)) →
        (Comment.blocks (spliceLines text (Example.inLines lead text))).map (·.text) =
            (Comment.blocks text).map (·.text) ∧
          program .sx lead source =
            .ok (if Example.inBlocks lead text = [] then spliceLines text (Example.inLines lead text)
              else spliceBlocks (spliceLines text (Example.inLines lead text)) (Example.inBlocks lead text) .start
                (Comment.blocks (spliceLines text (Example.inLines lead text))).zipIdx)) ∧
      ∀ found expected, program .sx lead source = .error (.lostBlocks found expected) ↔
        Example.inBlocks lead text ≠ [] ∧ expected = (Comment.blocks text).length ∧ found ≠ expected ∧
          found + ((Example.inLines lead text).flatMap (·.taken (Comment.blocks text))).length =
            expected + ((Example.inLines lead text).flatMap (·.brought)).length := by
  obtain ⟨result, spliced, lexemes⟩ := Example.spliceLines_lexemes lead text fits closed closedCode
  have laid := Example.inLines_laid lead text
  have inText := Comment.blocks_eq text
  have bodies : (Comment.blocks (spliceLines text (Example.inLines lead text))).map (·.text) =
      Example.exchange (Comment.blocks text) (Example.inLines lead text) := by
    rw [inText, Comment.blocks_eq, lexemes]
    exact spliced.bodies .start
  have counted : (Comment.blocks (spliceLines text (Example.inLines lead text))).length +
      ((Example.inLines lead text).flatMap (·.taken (Comment.blocks text))).length =
        (Comment.blocks text).length + ((Example.inLines lead text).flatMap (·.brought)).length := by
    rw [← List.length_map (·.text), bodies, inText]
    exact laid.exchange_length
  have outcome : program .sx lead source =
      if Example.inBlocks lead text = [] then .ok (spliceLines text (Example.inLines lead text))
      else if (Comment.blocks (spliceLines text (Example.inLines lead text))).length = (Comment.blocks text).length then
        .ok (spliceBlocks (spliceLines text (Example.inLines lead text)) (Example.inBlocks lead text) .start
          (Comment.blocks (spliceLines text (Example.inLines lead text))).zipIdx)
      else .error (.lostBlocks (Comment.blocks (spliceLines text (Example.inLines lead text))).length
        (Comment.blocks text).length) := by
    simp only [program, normalized, plain, List.isEmpty_iff]
    rfl
  refine ⟨bodies, fun same => ?_, fun found expected => ?_⟩
  · have kept : (Comment.blocks (spliceLines text (Example.inLines lead text))).map (·.text) =
        (Comment.blocks text).map (·.text) := by
      rw [inText] at same bodies ⊢
      exact bodies.trans (laid.exchange_eq same)
    have count := congrArg List.length kept
    rw [List.length_map, List.length_map] at count
    refine ⟨kept, ?_⟩
    rw [outcome, if_pos count]
    split <;> rfl
  · rw [outcome]
    split
    · next none => simp [none]
    · next some =>
        split
        · next same =>
            simp only [reduceCtorEq, false_iff]
            rintro ⟨-, rfl, differs, exchanged⟩
            omega
        · next differs =>
            simp only [Except.error.injEq, Fault.lostBlocks.injEq]
            constructor
            · rintro ⟨rfl, rfl⟩
              exact ⟨some, rfl, differs, counted⟩
            · rintro ⟨-, rfl, -, exchanged⟩
              exact ⟨by omega, rfl⟩

/-- An example with a block comment in its code, where an equal one stands in its region, beside a block comment with
an example. -/
theorem program_blocks_exchanged :
    (Comment.blocks (spliceLines "; > 1 #| b |#\n#| b |# ; 1\n#| > 2 |#".toList
      (Example.inLines [] "; > 1 #| b |#\n#| b |# ; 1\n#| > 2 |#".toList))).map (·.text) =
        [" b ".toList, " > 2 ".toList] :=
  ((program_blocks [] "; > 1 #| b |#\n#| b |# ; 1\n#| > 2 |#".toList rfl (by decide) (by decide) (by decide)).2.1
    (by decide)).1

/-- Block comments are lost from the count when the code of an example brings one in, when the region of an example
takes one out, and when an open string in the code of an example hides one. -/
theorem program_loses_blocks :
    program .sx [] "; > #| note |# 1\n; 1\n#| > 2\n2 |#\n".toList = .error (.lostBlocks 2 1) ∧
      program .sx [] "; > 1\n#| > 2 |# ; 1\n".toList = .error (.lostBlocks 0 1) ∧
      program .sx [] "; > \"\n#| > 2 |#\n; \"\n".toList = .error (.lostBlocks 0 1) :=
  ⟨rfl, rfl, rfl⟩

end Instrument

end Exemplar
