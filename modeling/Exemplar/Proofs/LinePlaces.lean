import Exemplar.Proofs.KeptCode
import Mathlib.Data.List.Induction

/-!
# Places and lines

The line and the column behind a text are the number of its lines and the length of its last one. Where comments stand
is therefore known line by line: a line comment ends its line, and the later lines of a block comment begin theirs.
-/

namespace Exemplar

namespace Text

variable {left right line : List Char}

theorem exists_lastLine (text : List Char) : ∃ before last, lines text = before ++ [last] :=
  ⟨_, _, (List.dropLast_concat_getLast (split_ne_nil _ text)).symm⟩

/-- A line of a text stays behind another text, but for the first, which goes on from the last line there. -/
theorem line_append_right (left : List Char) {index : Nat} (found : (lines right)[index + 1]? = some line) :
    (lines (left ++ right))[(lines left).length + index]? = some line := by
  obtain ⟨before, last, leftLines⟩ := exists_lastLine left
  obtain ⟨first, after, rightLines⟩ := List.exists_cons_of_ne_nil (split_ne_nil '\n' right)
  have joined : lines (left ++ right) = before ++ (last ++ first) :: after := split_append_fields leftLines rightLines
  have behind : lines right = first :: after := rightLines
  rw [behind, List.getElem?_cons_succ] at found
  rw [joined, leftLines, List.length_append, List.length_singleton, Nat.add_assoc,
    List.getElem?_append_right (Nat.le_add_right _ _), Nat.add_sub_cancel_left, Nat.add_comm 1, List.getElem?_cons_succ,
    found]

/-- A line of a text stays before another text, but for the last, which goes on with the first line there. -/
theorem line_append_left (right : List Char) {index : Nat} (found : (lines left)[index]? = some line) :
    ∃ after, (lines (left ++ right))[index]? = some (line ++ after) ∧
      (after = [] ∨ (lines right).head? = some after) := by
  obtain ⟨before, last, leftLines⟩ := exists_lastLine left
  obtain ⟨first, more, rightLines⟩ := List.exists_cons_of_ne_nil (split_ne_nil '\n' right)
  have joined : lines (left ++ right) = before ++ (last ++ first) :: more := split_append_fields leftLines rightLines
  have behind : lines right = first :: more := rightLines
  rw [leftLines] at found
  rw [joined, behind]
  rcases Nat.lt_or_ge index before.length with inside | outside
  · rw [List.getElem?_append_left inside] at found ⊢
    exact ⟨[], by rw [found, List.append_nil], .inl rfl⟩
  · rw [List.getElem?_append_right outside] at found ⊢
    obtain ⟨isLast, same⟩ : index - before.length = 0 ∧ last = line := by
      cases distance : index - before.length with
      | zero => simpa [distance] using found
      | succ n => simp [distance] at found
    exact ⟨first, by rw [isLast, same]; rfl, .inr rfl⟩

end Text

namespace Position

theorem advance_of_lines (p : Position) {text last : List Char} {before : List (List Char)}
    (cut : Text.lines text = before ++ [last]) :
    p.advance text =
      ⟨p.line + before.length, if before = [] then p.column + last.length else last.length⟩ := by
  induction text using List.reverseRecOn generalizing before last with
  | nil =>
      have none : ([] : List (List Char)) ++ [[]] = before ++ [last] := cut
      obtain ⟨rfl, same⟩ := List.append_inj' none rfl
      obtain rfl : [] = last := (List.cons.inj same).1
      rfl
  | append_singleton front c ih =>
      obtain ⟨earlier, final, frontLines⟩ := Text.exists_lastLine front
      rw [advance_append, ih frontLines, advance_cons, advance_nil]
      by_cases isBreak : c = '\n'
      · have whole : Text.lines (front ++ ['\n']) = Text.lines front ++ [[]] := Text.split_append '\n' front []
        rw [isBreak, whole] at cut
        obtain ⟨rfl, same⟩ := List.append_inj' cut rfl
        obtain rfl : [] = last := (List.cons.inj same).1
        rw [isBreak, after_break, frontLines]
        simp [Nat.add_assoc]
      · have single : Text.split '\n' [c] = [[c]] := Text.split_of_not_mem (by simpa using Ne.symm isBreak)
        have whole : Text.lines (front ++ [c]) = earlier ++ [final ++ [c]] :=
          Text.split_append_fields frontLines single
        obtain ⟨rfl, same⟩ := List.append_inj' (whole.symm.trans cut) rfl
        obtain rfl : final ++ [c] = last := (List.cons.inj same).1
        rw [after_other _ isBreak]
        split <;> simp [Nat.add_assoc]

theorem advance_start {text last : List Char} {before : List (List Char)} (cut : Text.lines text = before ++ [last]) :
    start.advance text = ⟨before.length + 1, last.length⟩ := by
  rw [advance_of_lines start cut]
  simp [start, Nat.add_comm]

theorem line_advance_start (text : List Char) : (start.advance text).line = (Text.lines text).length := by
  obtain ⟨before, last, cut⟩ := Text.exists_lastLine text
  rw [advance_start cut, cut, List.length_append]
  rfl

theorem advance_unbroken (p : Position) {text : List Char} (unbroken : '\n' ∉ text) :
    p.advance text = ⟨p.line, p.column + text.length⟩ := by
  have alone : Text.lines text = [] ++ [text] := Text.split_of_not_mem unbroken
  rw [advance_of_lines p alone]
  rfl

end Position

theorem Lexeme.line_unbroken {body after : List Char} (opens : (line body).Opens after) : '\n' ∉ (line body).text := by
  intro inside
  rcases List.mem_cons.mp inside with wrong | inBody
  · cases wrong
  · exact absurd ((opens_line.mp opens).1 '\n' inBody) (by decide)

namespace Comment

variable {text : List Char} {c : Comment}

/-- A line comment stands on one line, up to a line break or the end of the text. -/
theorem exists_line (member : c ∈ lines text) :
    ∃ front behind, text = front ++ ((';' :: c.text) ++ behind) ∧ '\n' ∉ ';' :: c.text ∧
      (∀ d ∈ behind.head?, Lexeme.isLineBreak d = true) ∧
      c.span = ⟨Position.start.advance front, (Position.start.advance front).advance (';' :: c.text)⟩ := by
  obtain ⟨scanned, isLine⟩ := List.mem_filter.mp member
  obtain ⟨front, lexeme, behind, whole, isComment⟩ := mem_scan.mp scanned
  cases lexeme with
  | line body =>
      cases isComment
      have leads := Lexeme.leads_all text
      rw [whole] at leads
      have opens := (Lexeme.leads_append.mp leads).2.1
      have breaks := (Lexeme.opens_line.mp opens).2
      rw [List.append_nil] at breaks
      refine ⟨Lexeme.texts front, Lexeme.texts behind, ?_, Lexeme.line_unbroken opens, breaks, rfl⟩
      rw [← Lexeme.texts_all text, whole]
      simp [Lexeme.text]
  | block body =>
      cases isComment
      cases isLine
  | _ => cases isComment

theorem line_stop (member : c ∈ lines text) : c.span.stop.line = c.span.start.line := by
  obtain ⟨front, behind, _, unbroken, _, span⟩ := exists_line member
  rw [span, Position.advance_unbroken _ unbroken]

/-- A line comment ends its line, when only line feeds break lines. -/
theorem line_at (noReturn : '\r' ∉ text) (member : c ∈ lines text) :
    ∃ number before, c.span.start = ⟨number + 1, before.length⟩ ∧
      (Text.lines text)[number]? = some (before ++ ';' :: c.text) := by
  obtain ⟨front, behind, cut, unbroken, breaks, span⟩ := exists_line member
  obtain ⟨more, rest⟩ : ∃ more, Text.split '\n' ((';' :: c.text) ++ behind) = (';' :: c.text) :: more := by
    cases behind with
    | nil => exact ⟨[], by rw [List.append_nil, Text.split_of_not_mem unbroken]⟩
    | cons d others =>
        obtain rfl : d = '\n' := Lexeme.break_of_noReturn noReturn (by simp [cut]) (breaks d rfl)
        exact ⟨_, by rw [Text.split_append, Text.split_of_not_mem unbroken]; rfl⟩
  obtain ⟨before, last, frontLines⟩ := Text.exists_lastLine front
  have joined : Text.lines text = before ++ (last ++ ';' :: c.text) :: more := by
    conv_lhs => rw [cut]
    exact Text.split_append_fields frontLines rest
  refine ⟨before.length, last, ?_, by rw [joined]; simp⟩
  rw [span, Position.advance_start frontLines]

/-- The lines of a block comment behind its first begin lines of the text, and only its last does not end one. -/
theorem block_at (member : c ∈ blocks text) {index : Nat} {part : List Char}
    (found : (Text.lines c.text)[index + 1]? = some part) :
    0 < c.span.start.line ∧ ∃ after, (Text.lines text)[c.span.start.line + index]? = some (part ++ after) ∧
      (after = [] ∨ ['|', '#'] <+: after) := by
  obtain ⟨scanned, isBlock⟩ := List.mem_filter.mp member
  obtain ⟨before, lexeme, behind, whole, isComment⟩ := mem_scan.mp scanned
  cases lexeme with
  | block body =>
      cases isComment
      have cut : text = (Lexeme.texts before ++ ['#', '|']) ++ (body ++ (['|', '#'] ++ Lexeme.texts behind)) := by
        rw [← Lexeme.texts_all text, whole]
        simp [Lexeme.text]
      obtain ⟨after, inside, ends⟩ := Text.line_append_left (['|', '#'] ++ Lexeme.texts behind) found
      have placed := Text.line_append_right (Lexeme.texts before ++ ['#', '|']) inside
      have opening : '\n' ∉ ['#', '|'] := by decide
      have numbered : 0 < (Position.start.advance (Lexeme.texts before)).line := by
        rw [Position.line_advance_start]
        exact List.length_pos_of_ne_nil (Text.split_ne_nil _ _)
      rw [← cut, ← Position.line_advance_start, Position.advance_append, Position.advance_unbroken _ opening] at placed
      refine ⟨numbered, after, placed, ends.imp_right fun isFirst => ?_⟩
      obtain ⟨first, more, rest⟩ := List.exists_cons_of_ne_nil (Text.split_ne_nil '\n' (Lexeme.texts behind))
      have closing : Text.split '\n' ['|', '#'] = [] ++ [['|', '#']] := rfl
      have joined : Text.lines (['|', '#'] ++ Lexeme.texts behind) = [] ++ (['|', '#'] ++ first) :: more :=
        Text.split_append_fields closing rest
      rw [joined] at isFirst
      obtain rfl := Option.some.inj isFirst
      exact ⟨first, rfl⟩
  | line body =>
      cases isComment
      cases isBlock
  | _ => cases isComment

/-! ## Lines of a group -/

theorem zipIdx_ordered {α : Type} (items : List α) (first : Nat) : (items.zipIdx first).Pairwise (·.2 < ·.2) := by
  have numbers : ((items.zipIdx first).map (·.2)).Pairwise (· < ·) := by
    rw [List.zipIdx_map_snd]
    exact List.pairwise_lt_range'
  exact List.pairwise_map.mp numbers

variable {group : List CommentLine} {line : CommentLine}

theorem mem_lineGroup (isGroup : group ∈ lineGroups (lines text)) (isLine : line ∈ group) :
    ∃ c ∈ lines text, line.text = dropSemicolons c.text ∧ line.span = c.span := by
  have member : line ∈ (lineGroups (lines text)).flatten := List.mem_flatten.mpr ⟨group, isGroup, isLine⟩
  rw [lineGroups, groupLines_flatten] at member
  obtain ⟨item, isItem, rfl⟩ := List.mem_map.mp member
  exact ⟨item.1, List.fst_mem_of_mem_zipIdx isItem, rfl, rfl⟩

theorem lineGroup_ordered (isGroup : group ∈ lineGroups (lines text)) :
    group.Pairwise fun line next => line.span.start.line < next.span.start.line := by
  have chain : (group.map (·.span.start.line)).IsChain (· < ·) :=
    List.isChain_map_of_isChain _ (fun _ _ above => Nat.lt_of_succ_le (Nat.le_of_eq above))
      (groupLines_chain isGroup)
  exact List.pairwise_map.mp (List.isChain_iff_pairwise.mp chain)

theorem mem_blockGroup {index : Nat} (isLine : line ∈ blockGroup c index) :
    ∃ offset part, (Text.lines c.text)[offset]? = some part ∧ line.text = dropGutter part ∧
      line.span.start.line = c.span.start.line + offset := by
  obtain ⟨⟨part, offset⟩, isItem, rfl⟩ := List.mem_map.mp isLine
  exact ⟨offset, part, List.mk_mem_zipIdx_iff_getElem?.mp isItem, rfl, rfl⟩

theorem blockGroup_ordered (c : Comment) (index : Nat) :
    (blockGroup c index).Pairwise fun line next => line.span.start.line < next.span.start.line := by
  refine List.pairwise_map.mpr ((zipIdx_ordered (Text.lines c.text) 0).imp fun below => ?_)
  exact Nat.add_lt_add_left below _

end Comment

end Exemplar
