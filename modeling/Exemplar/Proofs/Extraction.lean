import Exemplar.Proofs.Regions

/-!
# Examples found in comments

What a line says is what it spells: `>`, dots or neither behind its beginning and the blanks there. Every line marked
as an input opens an example, and no other line does. Whether comments hold examples therefore depends on the texts of
their lines alone, not on where these stand.
-/

namespace Exemplar

/-- The text behind the mark of a line. -/
def Marker.body : Marker → List Char
  | input body | continuation body | plain body => body

/-- `rest` is `body` behind one space, or `body` itself when no space stands there. -/
def Marker.Spaced (body rest : List Char) : Prop := rest = ' ' :: body ∨ rest = body ∧ rest.head? ≠ some ' '

/-- How a mark is spelled with its body: as `>`, as all dots at the beginning, or not at all. -/
inductive Marker.Spells : Marker → List Char → Prop where
  | input {body rest : List Char} (spaced : Spaced body rest) : Spells (.input body) ('>' :: rest)
  | continuation (dots : Nat) {body rest : List Char} (spaced : Spaced body rest) (ended : rest.head? ≠ some '.') :
      Spells (.continuation body) (List.replicate (dots + 1) '.' ++ rest)
  | plain {body : List Char} (noInput : body.head? ≠ some '>') (noDot : body.head? ≠ some '.') :
      Spells (.plain body) body

/-- Whether a line is the beginning `lead`, all blanks behind it, and the spelling of a mark without a line feed. -/
def Marker.Marks (lead text : List Char) (marker : Marker) : Prop :=
  ∃ blanks said, text = lead ++ (blanks ++ said) ∧ (∀ c ∈ blanks, Text.isBlank c = true) ∧
    (∀ c ∈ said.head?, Text.isBlank c = false) ∧ '\n' ∉ said ∧ marker.Spells said

def Marker.opens (lead text : List Char) : Bool :=
  match ofLine? lead text with
  | some (.input _) => true
  | _ => false

def Marker.opensLine (lead body : List Char) : Bool := opens lead (Comment.dropSemicolons body)

def Marker.opensBlock (lead body : List Char) : Bool :=
  (Text.lines body).any fun line => opens lead (Comment.dropGutter line)

/-! ## Marks as they are spelled -/

namespace Marker

variable {lead text body rest : List Char} {marker : Marker}

theorem dropSpace_eq_iff : ErrorSpec.dropSpace rest = body ↔ Spaced body rest := by
  cases rest with
  | nil => simp [ErrorSpec.dropSpace, Spaced]
  | cons c more =>
      by_cases space : c = ' '
      · subst space
        simp [ErrorSpec.dropSpace, Spaced]
      · simp [ErrorSpec.dropSpace, Spaced, space]

theorem dots_cut (more : List Char) :
    ∃ dots, '.' :: more = List.replicate (dots + 1) '.' ++ more.dropWhile (· == '.') := by
  have dotted : more.takeWhile (· == '.') = List.replicate (more.takeWhile (· == '.')).length '.' :=
    List.eq_replicate_of_mem fun c member => by simpa using List.all_eq_true.mp List.all_takeWhile c member
  refine ⟨(more.takeWhile (· == '.')).length, ?_⟩
  rw [List.replicate_succ, ← dotted, List.cons_append, List.takeWhile_append_dropWhile]

theorem dropDots (dots : Nat) (ended : rest.head? ≠ some '.') :
    (List.replicate dots '.' ++ rest).dropWhile (· == '.') = rest := by
  rw [List.dropWhile_append_of_pos (by simp)]
  cases rest with
  | nil => rfl
  | cons c more => exact List.dropWhile_cons_of_neg (by simpa using ended)

theorem marks_of_ofLine (read : ofLine? lead text = some marker) : Marks lead text marker := by
  unfold ofLine? at read
  split at read
  · next begins =>
      obtain ⟨behind, rfl⟩ := List.isPrefixOf_iff_prefix.mp begins
      obtain ⟨blanks, cut, blank⟩ := Text.dropBlanks_cut behind
      simp only [List.drop_left] at read
      split at read
      · cases read
      · next unbroken =>
          refine ⟨blanks, Text.dropBlanks behind, by rw [← cut], blank, fun c first => Text.head_dropBlanks first,
            by simpa using unbroken, ?_⟩
          split at read
          · next body said =>
              cases read
              rw [said]
              exact .input (dropSpace_eq_iff.mp rfl)
          · next more said =>
              cases read
              obtain ⟨dots, whole⟩ := dots_cut more
              rw [said, whole]
              refine .continuation dots (dropSpace_eq_iff.mp rfl) fun dot => ?_
              have stops := List.head?_dropWhile_not (· == '.') more
              rw [dot] at stops
              cases stops
          · next noInput noDot =>
              cases read
              refine .plain (fun input => ?_) fun dot => ?_
              · obtain ⟨more, said⟩ := List.head?_eq_some_iff.mp input
                exact noInput more said
              · obtain ⟨more, said⟩ := List.head?_eq_some_iff.mp dot
                exact noDot more said
  · cases read

theorem ofLine_of_marks (marks : Marks lead text marker) : ofLine? lead text = some marker := by
  obtain ⟨blanks, said, rfl, blank, ended, unbroken, spells⟩ := marks
  have begins : lead.isPrefixOf (lead ++ (blanks ++ said)) = true :=
    List.isPrefixOf_iff_prefix.mpr (List.prefix_append _ _)
  have oneLine : said.contains '\n' = false := by simpa using unbroken
  simp only [ofLine?, begins, if_true, List.drop_left, Text.dropBlanks_append blank ended, oneLine]
  cases spells with
  | input spaced => simp [dropSpace_eq_iff.mpr spaced]
  | continuation dots spaced last =>
      rw [List.replicate_succ, List.cons_append]
      simp [dropDots dots last, dropSpace_eq_iff.mpr spaced]
  | plain noInput noDot =>
      cases said with
      | nil => rfl
      | cons c more =>
          have input : c ≠ '>' := by simpa using noInput
          have dot : c ≠ '.' := by simpa using noDot
          simp [input, dot]

/-- The mark that is read from a line is the one that the line spells. -/
theorem ofLine_eq_some_iff : ofLine? lead text = some marker ↔ Marks lead text marker :=
  ⟨marks_of_ofLine, ofLine_of_marks⟩

end Marker

namespace Example

variable {lead : List Char}

theorem extend_start (e : Example) (phase : Phase) (body : List Char) (line : CommentLine) :
    (e.extend phase body line).input.span.start = e.input.span.start := by
  unfold extend
  split <;> rfl

theorem step_starts (state : Phase × List Example) (line : CommentLine) :
    (step lead state line).2.map (·.input.span.start) =
      (if Marker.opens lead line.text then [line.span.start] else []) ++ state.2.map (·.input.span.start) := by
  obtain ⟨phase, examples⟩ := state
  unfold step Marker.opens
  cases Marker.ofLine? lead line.text with
  | none => rfl
  | some marker =>
      cases marker with
      | input body => rfl
      | continuation body =>
          cases examples with
          | nil => rfl
          | cons last earlier => simp [extend_start]
      | plain body =>
          dsimp only
          split
          · cases examples <;> rfl
          · rfl

theorem fold_starts (state : Phase × List Example) (lines : List CommentLine) :
    (lines.foldl (step lead) state).2.map (·.input.span.start) =
      ((lines.filter fun line => Marker.opens lead line.text).map (·.span.start)).reverse ++
        state.2.map (·.input.span.start) := by
  induction lines generalizing state with
  | nil => rfl
  | cons line rest ih =>
      rw [List.foldl_cons, ih, step_starts, List.filter_cons]
      split <;> simp

/-- The examples of a group start where the lines that open one do. -/
theorem ofGroup_starts (group : List CommentLine) :
    (ofGroup lead group).map (·.input.span.start) =
      (group.filter fun line => Marker.opens lead line.text).map (·.span.start) := by
  have started := @fold_starts lead (.idle, []) group
  rw [List.map_nil, List.append_nil] at started
  rw [ofGroup, List.map_map, List.map_reverse, ← List.reverse_reverse (List.map _ (group.filter _)), ← started]
  simp [Function.comp_def]

theorem ofGroup_eq_nil_iff {group : List CommentLine} :
    ofGroup lead group = [] ↔ ∀ line ∈ group, Marker.opens lead line.text = false := by
  rw [← List.map_eq_nil_iff, ofGroup_starts, List.map_eq_nil_iff, List.filter_eq_nil_iff]
  simp

/-- What holds of every example that a line opens or goes on with holds of all examples of a group. -/
theorem ofGroup_keeps {holds : Example → Prop} {group : List CommentLine}
    (opens : ∀ line ∈ group, ∀ body, Marker.ofLine? lead line.text = some (.input body) →
      holds ⟨line.index, false, ⟨body, line.span⟩, none⟩)
    (extend : ∀ line ∈ group, ∀ body, Marker.ofLine? lead line.text = some (.continuation body) →
      ∀ e phase, holds e → holds (e.extend phase body line))
    (answers : ∀ line ∈ group, ∀ body, Marker.ofLine? lead line.text = some (.plain body) →
      ∀ e, holds e → holds { e with commentIndex := line.index, output := some ⟨body, line.span⟩ })
    (normalizes : ∀ e, holds e → holds e.normalize) : ∀ e ∈ ofGroup lead group, holds e := by
  have fold (state : Phase × List Example) (lines : List CommentLine) (within : ∀ line ∈ lines, line ∈ group)
      (before : ∀ e ∈ state.2, holds e) : ∀ e ∈ (lines.foldl (step lead) state).2, holds e := by
    induction lines generalizing state with
    | nil => exact before
    | cons line rest ih =>
        refine ih _ (fun other member => within other (by simp [member])) ?_
        have here := within line (by simp)
        obtain ⟨phase, examples⟩ := state
        unfold step
        cases marked : Marker.ofLine? lead line.text with
        | none => exact before
        | some marker =>
            cases marker with
            | input body => exact List.forall_mem_cons.mpr ⟨opens line here body marked, before⟩
            | continuation body =>
                cases examples with
                | nil => exact before
                | cons last earlier =>
                    obtain ⟨first, others⟩ := List.forall_mem_cons.mp before
                    exact List.forall_mem_cons.mpr ⟨extend line here body marked last phase first, others⟩
            | plain body =>
                dsimp only
                split
                · cases examples with
                  | nil => exact before
                  | cons last earlier =>
                      obtain ⟨first, others⟩ := List.forall_mem_cons.mp before
                      exact List.forall_mem_cons.mpr ⟨answers line here body marked last first, others⟩
                · exact before
  intro e member
  obtain ⟨found, isFound, rfl⟩ := List.mem_map.mp member
  exact normalizes found
    (fold (.idle, []) group (fun _ member => member) (by simp) found (List.mem_reverse.mp isFound))

theorem commentIndex_extend {e : Example} {phase : Phase} {body : List Char} {line : CommentLine}
    (same : e.commentIndex = line.index) : (e.extend phase body line).commentIndex = line.index := by
  unfold extend
  split
  · rfl
  · rfl
  · exact same

theorem commentIndex_normalize (e : Example) : e.normalize.commentIndex = e.commentIndex := by
  unfold normalize
  split
  · rfl
  · split <;> rfl

/-- The examples in line comments start where the comments that open one do. -/
theorem inLines_starts (text : List Char) :
    (inLines lead text).map (·.input.span.start) =
      ((Comment.lines text).filter fun c => Marker.opensLine lead c.text).map (·.span.start) := by
  have groups (groups : List (List CommentLine)) : (ofGroups lead groups).map (·.input.span.start) =
      (groups.flatten.filter fun line => Marker.opens lead line.text).map (·.span.start) := by
    induction groups with
    | nil => rfl
    | cons group rest ih =>
        rw [ofGroups, List.flatMap_cons, List.map_append, ofGroup_starts, List.flatten_cons, List.filter_append,
          List.map_append]
        exact congrArg _ ih
  rw [inLines, groups, Comment.lineGroups, Comment.groupLines_flatten, List.filter_map, List.map_map]
  conv_rhs => rw [← List.zipIdx_map_fst 0 (Comment.lines text), List.filter_map, List.map_map]
  rfl

/-- The examples of a block comment and its number among them. -/
def ofBlock (lead : List Char) (block : Comment × Nat) : List Example :=
  ofGroup lead (Comment.blockGroup block.1 block.2)

theorem inBlocks_eq_flatMap (text : List Char) :
    inBlocks lead text = (Comment.blocks text).zipIdx.flatMap (ofBlock lead) := by
  rw [inBlocks, ofGroups, Comment.blockGroups, List.flatMap_map]
  rfl

theorem ofBlock_eq_nil_iff {block : Comment × Nat} :
    ofBlock lead block = [] ↔ Marker.opensBlock lead block.1.text = false := by
  rw [ofBlock, ofGroup_eq_nil_iff, Comment.blockGroup, List.forall_mem_map, Marker.opensBlock, List.any_eq_false]
  simp only [Bool.not_eq_true]
  constructor
  · intro none line member
    rw [← List.zipIdx_map_fst 0 (Text.lines block.1.text)] at member
    obtain ⟨item, isItem, rfl⟩ := List.mem_map.mp member
    exact none item isItem
  · intro none item member
    exact none item.1 (List.fst_mem_of_mem_zipIdx member)

theorem inBlocks_eq_nil_iff {text : List Char} :
    inBlocks lead text = [] ↔ ∀ c ∈ Comment.blocks text, Marker.opensBlock lead c.text = false := by
  rw [inBlocks_eq_flatMap, List.flatMap_eq_nil_iff]
  simp only [ofBlock_eq_nil_iff]
  constructor
  · intro none c member
    rw [← List.zipIdx_map_fst 0 (Comment.blocks text)] at member
    obtain ⟨block, isBlock, rfl⟩ := List.mem_map.mp member
    exact none block isBlock
  · intro none block member
    exact none block.1 (List.fst_mem_of_mem_zipIdx member)

theorem commentIndex_ofBlock {block : Comment × Nat} : ∀ e ∈ ofBlock lead block, e.commentIndex = block.2 := by
  have indexed : ∀ line ∈ Comment.blockGroup block.1 block.2, line.index = block.2 := by
    intro line member
    obtain ⟨item, _, rfl⟩ := List.mem_map.mp member
    rfl
  refine ofGroup_keeps (fun line member _ _ => indexed line member) ?_ (fun line member _ _ _ _ => indexed line member)
    fun e same => (commentIndex_normalize e).trans same
  intro line member body _ e phase same
  rw [commentIndex_extend (same.trans (indexed line member).symm), indexed line member]

/-- The code for a block comment is that of its own examples. -/
theorem blockCode_eq {text : List Char} {block : Comment × Nat} (member : block ∈ (Comment.blocks text).zipIdx) :
    Instrument.blockCode (inBlocks lead text) block.2 = (ofBlock lead block).map (Harness.code 0) := by
  obtain ⟨before, after, cut⟩ := List.append_of_mem member
  -- The numbers are distinct, so that the examples of other comments are filtered out.
  have distinct : ((Comment.blocks text).zipIdx.map (·.2)).Nodup := by
    rw [List.zipIdx_map_snd]
    exact List.nodup_range'
  have others {blocks : List (Comment × Nat)} (apart : ∀ other ∈ blocks, other.2 ≠ block.2) :
      (blocks.flatMap fun other => (ofBlock lead other).filter (·.commentIndex == block.2)) = [] := by
    rw [List.flatMap_eq_nil_iff]
    intro other isOther
    rw [List.filter_eq_nil_iff]
    intro e isExample
    rw [commentIndex_ofBlock e isExample, beq_iff_eq]
    exact apart other isOther
  have own : (ofBlock lead block).filter (·.commentIndex == block.2) = ofBlock lead block := by
    rw [List.filter_eq_self]
    intro e isExample
    rw [commentIndex_ofBlock e isExample, BEq.rfl]
  rw [cut, List.map_append, List.map_cons, List.nodup_append] at distinct
  obtain ⟨-, later, earlier⟩ := distinct
  rw [Instrument.blockCode, inBlocks_eq_flatMap, List.filter_flatMap, cut, List.flatMap_append, List.flatMap_cons, own,
    others fun other isOther => earlier other.2 (List.mem_map_of_mem isOther) block.2 List.mem_cons_self,
    others fun other isOther same =>
      (List.nodup_cons.mp later).1 (List.mem_map.mpr ⟨other, isOther, same⟩),
    List.nil_append, List.append_nil]

end Example

end Exemplar
