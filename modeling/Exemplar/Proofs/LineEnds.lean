import Exemplar.Proofs.CodeLexemes
import Exemplar.Proofs.Extraction
import Exemplar.Proofs.KeptCode

/-!
# Line ends in the code for examples

A text that is worked on ends its lines with line feeds alone. So does the code for its examples: their texts are parts
of comment lines, and the expression for an expected error escapes what it quotes.
-/

namespace Exemplar

theorem Lexeme.noReturn_iff {text : List Char} : '\r' ∉ text ↔ ∀ lexeme ∈ all text, '\r' ∉ lexeme.text := by
  conv_lhs => rw [← texts_all text, texts, List.mem_flatMap]
  constructor
  · intro none lexeme member inside
    exact none ⟨lexeme, member, inside⟩
  · rintro none ⟨lexeme, member, inside⟩
    exact none lexeme member inside

theorem Lexeme.noReturn_of_plain {lexeme : Lexeme} (plain : lexeme.isPlain = true) : '\r' ∉ lexeme.text := by
  cases lexeme with
  | mark c =>
      intro member
      obtain rfl := List.mem_singleton.mp member
      revert plain
      decide
  | word characters =>
      intro member
      exact absurd (List.all_eq_true.mp plain '\r' member) (by decide)
  | _ => cases plain

theorem Text.encode_noReturn (text : List Char) : '\r' ∉ encode text := by
  have none (c : Char) : '\r' ∉ escape c := by
    unfold escape
    split
    iterate 5 · decide
    · next noReturn => exact fun member => noReturn (List.mem_singleton.mp member).symm
  intro member
  obtain ⟨c, _, inside⟩ := List.mem_flatMap.mp member
  exact none c inside

namespace ErrorSpec

theorem expression_noReturn (spec : ErrorSpec) : '\r' ∉ spec.expression := by
  have literal (text : List Char) : '\r' ∉ literal text := by simp [literal, Text.encode_noReturn]
  unfold expression
  split <;> simp [literal]

end ErrorSpec

theorem Marker.Spaced.sublist {body rest : List Char} (spaced : Spaced body rest) : body.Sublist rest := by
  rcases spaced with rfl | ⟨rfl, _⟩
  · exact List.sublist_cons_self _ _
  · exact List.Sublist.refl _

theorem Marker.body_sublist {lead text : List Char} {marker : Marker} (marked : ofLine? lead text = some marker) :
    marker.body.Sublist text := by
  obtain ⟨blanks, said, rfl, _, _, _, spells⟩ := marks_of_ofLine marked
  have inside : marker.body.Sublist said := by
    cases spells with
    | input spaced => exact spaced.sublist.cons '>'
    | continuation dots spaced _ => exact spaced.sublist.trans (List.sublist_append_right _ _)
    | plain _ _ => exact List.Sublist.refl _
  exact inside.trans ((List.sublist_append_right _ _).trans (List.sublist_append_right _ _))

namespace Comment

theorem dropSemicolons_suffix (text : List Char) : dropSemicolons text <:+ text :=
  (List.dropWhile_suffix _).trans ((List.dropWhile_suffix _).trans (List.dropWhile_suffix _))

theorem dropGutter_suffix (line : List Char) : dropGutter line <:+ line := by
  have rest : Text.dropBlanks line <:+ line := List.dropWhile_suffix _
  unfold dropGutter
  split
  · exact List.nil_suffix
  · next c more begins =>
      rw [begins] at rest
      split
      · exact (List.dropWhile_suffix _).trans ((List.suffix_cons c more).trans rest)
      · exact rest

/-- The characters of a comment are characters of the text. -/
theorem mem_of_mem_text {text : List Char} {c : Comment} (member : c ∈ scan text) {character : Char}
    (inside : character ∈ c.text) : character ∈ text := by
  obtain ⟨before, lexeme, after, whole, isComment⟩ := mem_scan.mp member
  have inLexeme : character ∈ lexeme.text := by
    cases lexeme <;> cases isComment <;> simp [Lexeme.text, inside]
  rw [← Lexeme.texts_all text, whole]
  simp [inLexeme]

end Comment

namespace Example

/-- The texts of an example hold no carriage return. -/
def NoReturn (e : Example) : Prop := '\r' ∉ e.input.value ∧ ∀ output ∈ e.output, '\r' ∉ output.value

theorem NoReturn.extend {e : Example} {body : List Char} (noReturn : e.NoReturn) (noBody : '\r' ∉ body) (phase : Phase)
    (line : CommentLine) : (e.extend phase body line).NoReturn := by
  unfold Example.extend
  split
  · exact ⟨by simp [Fragment.extend, noReturn.1, noBody], noReturn.2⟩
  · next output isOutput =>
      refine ⟨noReturn.1, fun found same => ?_⟩
      cases same
      simp [Fragment.extend, noReturn.2 output isOutput, noBody]
  · exact noReturn

theorem NoReturn.normalize {e : Example} (noReturn : e.NoReturn) : e.normalize.NoReturn := by
  unfold Example.normalize
  split
  · exact noReturn
  · split
    · refine ⟨noReturn.1, fun found same => ?_⟩
      cases same
      exact ErrorSpec.expression_noReturn _
    · exact noReturn

theorem ofGroup_noReturn {lead : List Char} {group : List CommentLine} (none : ∀ line ∈ group, '\r' ∉ line.text) :
    ∀ e ∈ ofGroup lead group, e.NoReturn := by
  have noBody (line : CommentLine) (isLine : line ∈ group) {marker : Marker}
      (marked : Marker.ofLine? lead line.text = some marker) : '\r' ∉ marker.body :=
    fun member => none line isLine ((Marker.body_sublist marked).mem member)
  refine ofGroup_keeps (fun line isLine body marked => ⟨noBody line isLine marked, fun _ same => nomatch same⟩)
    (fun line isLine body marked e phase noReturn => noReturn.extend (noBody line isLine marked) phase line)
    (fun line isLine body marked e noReturn => ⟨noReturn.1, fun output same => ?_⟩) fun _ => NoReturn.normalize
  cases same
  exact noBody line isLine marked

variable {text : List Char} (lead : List Char) (noReturn : '\r' ∉ text)

include noReturn in
theorem inLines_noReturn : ∀ e ∈ inLines lead text, e.NoReturn := by
  intro e member
  obtain ⟨group, isGroup, found⟩ := List.mem_flatMap.mp member
  refine ofGroup_noReturn (fun line isLine inside => ?_) e found
  have inLines : line ∈ (Comment.lineGroups (Comment.lines text)).flatten :=
    List.mem_flatten.mpr ⟨group, isGroup, isLine⟩
  rw [Comment.lineGroups, Comment.groupLines_flatten] at inLines
  obtain ⟨comment, isComment, rfl⟩ := List.mem_map.mp inLines
  have scanned := (List.mem_filter.mp (List.fst_mem_of_mem_zipIdx isComment)).1
  exact noReturn (Comment.mem_of_mem_text scanned ((Comment.dropSemicolons_suffix _).mem inside))

include noReturn in
theorem inBlocks_noReturn : ∀ e ∈ inBlocks lead text, e.NoReturn := by
  intro e member
  rw [inBlocks_eq_flatMap] at member
  obtain ⟨block, isBlock, found⟩ := List.mem_flatMap.mp member
  refine ofGroup_noReturn (fun line isLine inside => ?_) e found
  obtain ⟨item, isItem, rfl⟩ := List.mem_map.mp isLine
  have scanned := (List.mem_filter.mp (List.fst_mem_of_mem_zipIdx isBlock)).1
  have inLine := (Comment.dropGutter_suffix _).mem inside
  exact noReturn (Comment.mem_of_mem_text scanned (Text.mem_of_mem_split (List.fst_mem_of_mem_zipIdx isItem) inLine).1)

end Example

theorem Harness.code_noReturn (width : Nat) {e : Example} (readable : Readable e) (noReturn : e.NoReturn) :
    ∀ lexeme ∈ Lexeme.all (code width e), '\r' ∉ lexeme.text :=
  forall_code width readable (fun _ => Lexeme.noReturn_of_plain) (Lexeme.noReturn_iff.mp noReturn.1)
    fun output isOutput => Lexeme.noReturn_iff.mp (noReturn.2 output isOutput)

namespace Instrument

theorem unifyBreaks_eq_self {text : List Char} (noReturn : '\r' ∉ text) : unifyBreaks text = text := by
  fun_induction unifyBreaks text with
  | case1 => rfl
  | case2 rest ih => exact absurd List.mem_cons_self noReturn
  | case3 c rest other ih =>
      obtain ⟨differs, later⟩ := not_or.mp (mt List.mem_cons.mpr noReturn)
      rw [ih later, if_neg (Ne.symm differs)]

/-- A text without carriage returns and stray marks is worked on as it is. -/
theorem normalize_eq_self {text : List Char} (noReturn : '\r' ∉ text)
    (closed : ∀ lexeme ∈ Lexeme.all text, lexeme.isStray = false) : normalize text = text := by
  rw [normalize, unifyBreaks_eq_self noReturn]
  unfold dropInterpreter
  split
  · next rest =>
      have hash : Lexeme.all ('#' :: '!' :: rest) = .mark '#' :: Lexeme.all ('!' :: rest) := rfl
      rw [hash] at closed
      cases closed _ List.mem_cons_self
  · rfl

end Instrument

end Exemplar
