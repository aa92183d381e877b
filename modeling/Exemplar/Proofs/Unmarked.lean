import Exemplar.Proofs.BlockExamples
import Exemplar.Proofs.LineEnds
import Exemplar.Proofs.LinePlaces
import Exemplar.Proofs.LiterateExamples

/-!
# Texts without examples

A comment line opens an example exactly when `>` is the first character behind its beginning that is no blank. A text
none of whose comment lines is marked so is instrumented to itself, whatever else it holds: strings and comments that
nothing closes, brackets without partners, and a last line with or without its line feed.
-/

namespace Exemplar

/-- Whether the first character of a comment line that is no blank, behind the beginning `lead`, is `>`. -/
def Marker.isMarked (lead line : List Char) : Bool :=
  lead.isPrefixOf line && (Text.dropBlanks (line.drop lead.length)).head? == some '>'

/-- No comment line of plain text is marked as an input. -/
def Comment.Unmarked (lead text : List Char) : Prop :=
  (∀ c ∈ lines text, Marker.isMarked lead (dropSemicolons c.text) = false) ∧
    ∀ c ∈ blocks text, ∀ line ∈ Text.lines c.text, Marker.isMarked lead (dropGutter line) = false

/-- No comment line of literate text is marked as an input. -/
def Literate.Unmarked (lead text : List Char) : Prop :=
  ∀ line ∈ Text.lines text, ∀ parts ∈ strip? line, Marker.isMarked lead parts.2 = false

instance (lead text : List Char) : Decidable (Comment.Unmarked lead text) :=
  inferInstanceAs (Decidable (_ ∧ _))

instance (lead text : List Char) : Decidable (Literate.Unmarked lead text) :=
  inferInstanceAs (Decidable (∀ line ∈ Text.lines text, _))

theorem Marker.opens_eq_isMarked {line : List Char} (lead : List Char) (unbroken : '\n' ∉ line) :
    opens lead line = isMarked lead line := by
  have noBreak : (Text.dropBlanks (line.drop lead.length)).contains '\n' = false := by
    rw [List.contains_eq_mem, decide_eq_false_iff_not]
    exact fun member => unbroken (((List.dropWhile_sublist _).trans (List.drop_sublist _ _)).mem member)
  unfold opens ofLine? isMarked
  cases lead.isPrefixOf line with
  | false => rfl
  | true =>
      simp only [if_true, noBreak, Bool.true_and]
      cases Text.dropBlanks (line.drop lead.length) with
      | nil => rfl
      | cons c rest =>
          by_cases input : c = '>'
          · subst input
            rfl
          · by_cases dot : c = '.' <;> simp [input, dot]

/-! ## Plain text -/

namespace Comment

theorem lines_unbroken {text : List Char} {c : Comment} (member : c ∈ lines text) : '\n' ∉ c.text := by
  obtain ⟨_, _, _, unbroken, _⟩ := exists_line member
  exact fun inside => unbroken (List.mem_cons_of_mem _ inside)

/-- The comments of a text hold no example exactly when no comment line is marked. -/
theorem unmarked_iff {lead text : List Char} :
    Unmarked lead text ↔ Example.inLines lead text = [] ∧ Example.inBlocks lead text = [] := by
  have inLines : Example.inLines lead text = [] ↔
      ∀ c ∈ lines text, Marker.isMarked lead (dropSemicolons c.text) = false := by
    rw [← List.map_eq_nil_iff, Example.inLines_starts, List.map_eq_nil_iff, List.filter_eq_nil_iff]
    refine forall₂_congr fun c member => ?_
    have unbroken : '\n' ∉ dropSemicolons c.text :=
      fun inside => lines_unbroken member ((dropSemicolons_suffix _).mem inside)
    rw [Marker.opensLine, Marker.opens_eq_isMarked lead unbroken, Bool.not_eq_true]
  have inBlocks : Example.inBlocks lead text = [] ↔
      ∀ c ∈ blocks text, ∀ line ∈ Text.lines c.text, Marker.isMarked lead (dropGutter line) = false := by
    rw [Example.inBlocks_eq_nil_iff]
    refine forall₂_congr fun c _ => ?_
    rw [Marker.opensBlock, List.any_eq_false]
    refine forall₂_congr fun line isLine => ?_
    have unbroken : '\n' ∉ dropGutter line :=
      fun inside => (Text.mem_of_mem_split isLine ((dropGutter_suffix _).mem inside)).2 rfl
    rw [Marker.opens_eq_isMarked lead unbroken, Bool.not_eq_true]
  rw [inLines, inBlocks, Unmarked]

end Comment

/-! ## Literate text -/

theorem Literate.strip_unbroken {line : List Char} {parts : List Char × List Char} (stripped : strip? line = some parts) :
    '\n' ∉ parts.2 := by
  unfold strip? at stripped
  split at stripped
  · dsimp only at stripped
    split at stripped
    · cases stripped
    · next unbroken =>
        cases stripped
        simpa using unbroken
  · cases stripped

namespace Instrument

variable {lead : List Char} {lines : List (List Char)}

theorem runsFrom_eq_nil_iff {front : List Char} {rest : List (List (List Char × Nat))} :
    runsFrom lead front rest = [] ↔ ∀ chunk ∈ rest, chunkExamples lead chunk = [] := by
  induction rest generalizing front with
  | nil => simp [runsFrom]
  | cons chunk rest ih =>
      rw [runsFrom, List.forall_mem_cons]
      by_cases none : chunkExamples lead chunk = []
      · rw [if_pos none, ih]
        exact (and_iff_right none).symm
      · rw [if_neg none]
        exact iff_of_false (List.cons_ne_nil _ _) fun both => none both.1

theorem chunkLines_texts (chunk : List (List Char × Nat)) :
    (chunkLines chunk).map (·.text) = chunk.filterMap fun line => (Literate.strip? line.1).map (·.2) := by
  conv_rhs => rw [← List.zipIdx_map_fst 0 chunk, List.filterMap_map]
  rw [chunkLines, List.map_filterMap]
  refine List.filterMap_congr fun item _ => ?_
  obtain ⟨⟨line, number⟩, index⟩ := item
  exact Option.map_map _ _ _

theorem chunkExamples_eq_nil_iff {chunk : List (List Char × Nat)} :
    chunkExamples lead chunk = [] ↔
      ∀ line ∈ chunk, ∀ parts ∈ Literate.strip? line.1, Marker.isMarked lead parts.2 = false := by
  have texts : (∀ comment ∈ chunkLines chunk, Marker.opens lead comment.text = false) ↔
      ∀ body ∈ chunk.filterMap fun line => (Literate.strip? line.1).map (·.2), Marker.opens lead body = false := by
    rw [← chunkLines_texts, List.forall_mem_map]
  rw [chunkExamples, Example.ofGroup_eq_nil_iff, texts, List.forall_mem_filterMap]
  refine forall₂_congr fun line _ => ?_
  cases stripped : Literate.strip? line.1 with
  | none => simp
  | some parts =>
      have unbroken : '\n' ∉ parts.2 := Literate.strip_unbroken stripped
      simp [Marker.opens_eq_isMarked lead unbroken]

/-- Literate text has no run of comment lines with examples exactly when no comment line is marked. -/
theorem runs_eq_nil_iff {text : List Char} : runs lead text = [] ↔ Literate.Unmarked lead text := by
  have whole (lines : List (List Char)) : (chunks (lines.zipIdx 1)).flatten = lines.zipIdx 1 := List.flatten_splitBy _ _
  have byLine (lines : List (List Char)) (holds : List Char → Prop) :
      (∀ chunk ∈ chunks (lines.zipIdx 1), ∀ line ∈ chunk, holds line.1) ↔ ∀ line ∈ lines, holds line := by
    rw [← List.forall_mem_flatten, whole, ← List.forall_mem_map (P := holds), List.zipIdx_map_fst]
  rw [runs, runsFrom_eq_nil_iff]
  simp only [chunkExamples_eq_nil_iff]
  rw [byLine _ fun line => ∀ parts ∈ Literate.strip? line, Marker.isMarked lead parts.2 = false, Literate.Unmarked]
  rw [Text.lines_dropFinalBreak text, List.forall_mem_append]
  refine (and_iff_left ?_).symm
  split
  · refine List.forall_mem_singleton.mpr fun _ found => ?_
    cases found
  · exact fun _ member => absurd member List.not_mem_nil

theorem literate_of_unmarked {text : List Char} (unmarked : Literate.Unmarked lead text) : literate lead text = text := by
  obtain ⟨lines, first, rest, final, cut, isLines, _, isText, isCode⟩ := literate_chunks lead text
  have none : ∀ chunk ∈ first :: rest, chunkExamples lead chunk = [] := by
    rw [← cut, isLines]
    exact runsFrom_eq_nil_iff.mp (runs_eq_nil_iff.mpr unmarked)
  obtain ⟨noFirst, noRest⟩ := List.forall_mem_cons.mp none
  have kept : rest.flatMap (fun chunk => '\n' :: Text.joinLines (chunkCode lead lines chunk)) =
      rest.flatMap fun chunk => '\n' :: chunkText chunk :=
    List.flatMap_congr fun chunk member => by rw [chunkCode_kept (noRest chunk member)]
  rw [isCode, chunkCode_kept noFirst, kept, ← isText]

/-- A text without marked comment lines is instrumented to itself, in both dialects and whether or not it is a program.
Literate text is then only compiled. -/
theorem program_unmarked (lead source : List Char) :
    (Comment.Unmarked lead (normalize source) → program .sx lead source = .ok (normalize source)) ∧
    (∀ text, Literate.Unmarked lead text → literate lead text = text) ∧
    (Literate.Unmarked lead (normalize source) →
      program .sxl lead source = (Literate.compile (normalize source)).mapError .malformed) := by
  refine ⟨fun unmarked => ?_, fun text => literate_of_unmarked, fun unmarked => ?_⟩
  · obtain ⟨noLines, noBlocks⟩ := Comment.unmarked_iff.mp unmarked
    exact plain_of_none noLines noBlocks
  · rw [program, literate_of_unmarked unmarked]

/-- A line for an interpreter, marks without the beginning `..` and a beginning without a mark, then a bracket, a quote
mark and a comment mark that nothing closes; and literate text whose last line has no end, once with an open string. -/
theorem program_unmarked_broken :
    program .sx "..".toList "#!x\r\n; > 1\r;; .. é > 2\n#| * .. <\n > 3 |# (]\" #| ; ..".toList =
        .ok "\n; > 1\n;; .. é > 2\n#| * .. <\n > 3 |# (]\" #| ; ..".toList ∧
      literate "..".toList "# > 1\n\t# .. é > \"\n# ..".toList = "# > 1\n\t# .. é > \"\n# ..".toList ∧
      program .sxl "..".toList "#!x\n(f) # .. > 1\n \"é".toList = .error (.malformed (.openString 15)) := by
  have plain := (program_unmarked "..".toList
    "#!x\r\n; > 1\r;; .. é > 2\n#| * .. <\n > 3 |# (]\" #| ; ..".toList).1 (by decide)
  have hashed := (program_unmarked "..".toList "#!x\n(f) # .. > 1\n \"é".toList).2.2 (by decide)
  have normal : normalize "#!x\r\n; > 1\r;; .. é > 2\n#| * .. <\n > 3 |# (]\" #| ; ..".toList =
      "\n; > 1\n;; .. é > 2\n#| * .. <\n > 3 |# (]\" #| ; ..".toList := by decide
  have compiled : Literate.compile (normalize "#!x\n(f) # .. > 1\n \"é".toList) = .error (.openString 15) := by decide
  rw [plain, normal, hashed, compiled]
  exact ⟨rfl, (program_unmarked "..".toList []).2.1 _ (by decide), rfl⟩

end Instrument

end Exemplar
