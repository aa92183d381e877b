import Exemplar.Proofs.BlockComments
import Mathlib.Data.List.Chain

/-!
# Slices of a text

A position stands behind the characters whose places are before it, so a slice is made of the characters between its
two positions and never of parts of one. Slices between positions that do not decrease give back the text.
-/

namespace Exemplar

namespace Text

theorem utf8ByteSize_ofList (text : List Char) : (String.ofList text).utf8ByteSize = byteLength text := by
  induction text with
  | nil => rfl
  | cons c rest ih =>
      rw [← List.singleton_append, String.ofList_append, String.utf8ByteSize_append, ih, byteLength_append]
      simp [byteLength]

theorem size_utf8Encode (text : List Char) : text.utf8Encode.size = byteLength text := by
  rw [← utf8ByteSize_ofList, ← String.toByteArray_ofList, String.size_toByteArray]

theorem extract_utf8Encode (before middle after : List Char) :
    (before ++ (middle ++ after)).utf8Encode.extract (byteLength before) (byteLength (before ++ middle)) =
      middle.utf8Encode := by
  rw [List.utf8Encode_append, List.utf8Encode_append, byteLength_append, ← size_utf8Encode before,
    ← size_utf8Encode middle, ← Nat.add_zero before.utf8Encode.size, Nat.add_assoc,
    ByteArray.extract_append_size_add, Nat.zero_add]
  exact ByteArray.extract_append_eq_left rfl

end Text

namespace Position

variable {p q : Position} {text : List Char}

theorem le_of_not_lt (notBefore : ¬ p < q) : q ≤ p := by
  change ¬ (_ ∨ _) at notBefore
  change _ ∨ _
  omega

theorem le_antisymm (first : p ≤ q) (second : q ≤ p) : p = q := by
  obtain ⟨line, column⟩ := p
  obtain ⟨line', column'⟩ := q
  change _ ∨ _ at first second
  simp only [mk.injEq] at first second ⊢
  omega

/-- The places of the characters of a text that starts at `here`. -/
def places (here : Position) : List Char → List Position
  | [] => []
  | c :: rest => here :: places (here.after c) rest

@[simp] theorem length_places (here : Position) (text : List Char) : (places here text).length = text.length := by
  induction text generalizing here with
  | nil => rfl
  | cons c rest ih => rw [places, List.length_cons, ih, List.length_cons]

theorem le_of_mem_places {here : Position} (member : q ∈ places here text) : here ≤ q := by
  induction text generalizing here with
  | nil => cases member
  | cons c rest ih =>
      rcases List.mem_cons.mp member with same | later
      · exact .inr (by simp [same])
      · have step : here ≤ here.after c := le_advance here [c]
        exact le_trans step (ih later)

theorem line_of_mem_places {here : Position} (member : q ∈ places here text) : q.line < here.line + text.length := by
  induction text generalizing here with
  | nil => cases member
  | cons c rest ih =>
      rw [List.length_cons]
      rcases List.mem_cons.mp member with same | later
      · rw [same]
        omega
      · have step : (here.after c).line ≤ here.line + 1 := by unfold after; split <;> simp
        have tail := ih later
        omega

/-- How many characters of a text that starts at `here` stand before `p`. -/
def countBefore (here p : Position) (text : List Char) : Nat := (places here text).countP (· < p)

theorem countBefore_le (here p : Position) (text : List Char) : countBefore here p text ≤ text.length := by
  rw [← length_places here text]
  exact List.countP_le_length

theorem countBefore_of_le {here : Position} (reached : p ≤ here) (text : List Char) : countBefore here p text = 0 := by
  refine List.countP_eq_zero.mpr fun q member => ?_
  simpa using not_lt_of_le (le_trans reached (le_of_mem_places member))

theorem countBefore_cons {here : Position} (before : here < p) (c : Char) (rest : List Char) :
    countBefore here p (c :: rest) = 1 + countBefore (here.after c) p rest := by
  rw [countBefore, places, List.countP_cons_of_pos (by simpa using before), Nat.add_comm]
  rfl

theorem indexAfter_eq_count (here : Position) (breaks column : Nat) (text : List Char) :
    indexAfter breaks column text =
      countBefore here ⟨here.line + breaks, if breaks = 0 then here.column + column else column⟩ text := by
  induction text generalizing here breaks column with
  | nil => cases breaks <;> cases column <;> rfl
  | cons c rest ih =>
      cases breaks with
      | zero =>
          simp only [if_pos, Nat.add_zero]
          cases column with
          | zero => exact (countBefore_of_le (.inr ⟨rfl, Nat.le_refl _⟩) _).symm
          | succ column =>
              have ahead : here < ⟨here.line, here.column + (column + 1)⟩ := .inr ⟨rfl, by simp only; omega⟩
              rw [countBefore_cons ahead, indexAfter]
              split
              · next isBreak =>
                  -- The line ends before the column is reached: nothing behind the break is before the position.
                  rw [isBreak, after_break, countBefore_of_le (.inl (Nat.lt_succ_self _))]
              · next other =>
                  rw [after_other here other, ih ⟨here.line, here.column + 1⟩ 0 column]
                  simp only [if_pos, Nat.add_zero, Nat.add_assoc, Nat.add_comm 1]
      | succ breaks =>
          simp only [Nat.succ_ne_zero, if_false]
          have ahead : here < ⟨here.line + (breaks + 1), column⟩ := .inl (by simp only; omega)
          rw [countBefore_cons ahead, indexAfter]
          split
          · next isBreak =>
              rw [isBreak, after_break, ih ⟨here.line + 1, 0⟩ breaks column]
              simp only [Nat.zero_add, ite_self, Nat.add_assoc, Nat.add_comm 1]
          · next other =>
              rw [after_other here other, ih ⟨here.line, here.column + 1⟩ (breaks + 1) column]
              simp only [Nat.succ_ne_zero, if_false]

theorem index_eq_count (proper : p ≠ fileEnd) : index text p = countBefore start p text := by
  unfold index
  by_cases first : p.line = 0
  · rw [if_pos first, countBefore_of_le (.inl (by rw [first]; exact Nat.one_pos))]
  · rw [if_neg first, if_neg proper, indexAfter_eq_count start]
    have line : start.line + (p.line - 1) = p.line := by simp only [start]; omega
    have column : (if p.line - 1 = 0 then start.column + p.column else p.column) = p.column := by
      simp only [start, Nat.zero_add, ite_self]
    rw [line, column]

theorem countBefore_fileEnd (fits : Fits text) : countBefore start fileEnd text = text.length := by
  rw [← length_places start text]
  refine List.countP_eq_length.mpr fun q member => ?_
  have line := line_of_mem_places member
  have inside : q < fileEnd := .inl (by simp only [Fits, start, fileEnd] at fits line ⊢; omega)
  simpa using inside

theorem index_le_length (text : List Char) (p : Position) : index text p ≤ text.length := by
  by_cases last : p = fileEnd
  · rw [last, index_fileEnd]
  · rw [index_eq_count last]
    exact countBefore_le start p text

theorem index_mono (ordered : p ≤ q) (bounded : q ≤ fileEnd) : index text p ≤ index text q := by
  by_cases last : q = fileEnd
  · rw [last, index_fileEnd]
    exact index_le_length text p
  · have proper : p ≠ fileEnd := by
      intro same
      rw [same] at ordered
      exact last (le_antisymm bounded ordered)
    rw [index_eq_count proper, index_eq_count last]
    refine List.countP_mono_left fun r _ before => ?_
    simpa using lt_of_lt_of_le (by simpa using before) ordered

/-! ## Slices -/

theorem slice_eq (text : List Char) (p q : Position) :
    slice text p q = (text.take (index text q)).drop (index text p) := by
  unfold slice
  split
  · next same =>
      rw [same, List.drop_eq_nil_of_le]
      exact List.length_take_le _ _
  · rfl

theorem slice_append_drop (ordered : index text p ≤ index text q) :
    slice text p q ++ text.drop (index text q) = text.drop (index text p) := by
  have whole := List.take_append_drop (index text q) text
  have inside : index text p ≤ (text.take (index text q)).length := by
    rw [List.length_take]
    exact Nat.le_min.mpr ⟨ordered, index_le_length text p⟩
  rw [slice_eq, ← List.drop_append_of_le_length inside, whole]

/-- The slices between neighbouring positions, one behind another. -/
def slices (text : List Char) (boundaries : List Position) : List Char :=
  (boundaries.zip boundaries.tail).flatMap fun pair => slice text pair.1 pair.2

theorem slices_from {boundaries : List Position} (chain : (p :: boundaries).IsChain (· ≤ ·))
    (ends : (p :: boundaries).getLast? = some fileEnd) :
    p ≤ fileEnd ∧ slices text (p :: boundaries) = text.drop (index text p) := by
  induction boundaries generalizing p with
  | nil =>
      obtain rfl : p = fileEnd := by simpa using ends
      exact ⟨.inr ⟨rfl, Nat.le_refl _⟩, by rw [index_fileEnd, List.drop_length]; rfl⟩
  | cons q rest ih =>
      obtain ⟨bounded, later⟩ := ih chain.tail (by simpa using ends)
      have ordered : p ≤ q := chain.rel
      refine ⟨le_trans ordered bounded, ?_⟩
      calc slices text (p :: q :: rest)
        _ = slice text p q ++ slices text (q :: rest) := rfl
        _ = slice text p q ++ text.drop (index text q) := by rw [later]
        _ = text.drop (index text p) := slice_append_drop (index_mono ordered bounded)

/-- The characters of a text whose places are from `p` on and before `q`. -/
def between (text : List Char) (p q : Position) : List Char :=
  ((text.zip (places start text)).filter fun pair => p ≤ pair.2 ∧ pair.2 < q).map (·.1)

theorem filter_places (here p q : Position) (text : List Char) :
    ((text.zip (places here text)).filter fun pair => p ≤ pair.2 ∧ pair.2 < q).map (·.1) =
      (text.take (countBefore here q text)).drop (countBefore here p text) := by
  induction text generalizing here with
  | nil => simp [places]
  | cons c rest ih =>
      have tail := ih (here.after c)
      rw [places, List.zip_cons_cons]
      by_cases before : here < q
      · rw [countBefore_cons before, Nat.add_comm 1, List.take_succ_cons]
        by_cases skipped : here < p
        · rw [countBefore_cons skipped, Nat.add_comm 1, List.drop_succ_cons, ← tail]
          have outside : ¬ (p ≤ here ∧ here < q) := fun inside => not_lt_of_le inside.1 skipped
          rw [List.filter_cons_of_neg (by simpa using outside)]
        · have reached := le_of_not_lt skipped
          rw [countBefore_of_le reached] at *
          have reachedLater : p ≤ here.after c := le_trans reached (le_advance here [c])
          rw [countBefore_of_le reachedLater] at tail
          rw [List.filter_cons_of_pos (by simpa using ⟨reached, before⟩), List.map_cons, tail]
          rfl
      · have reached := le_of_not_lt before
        rw [countBefore_of_le reached, List.take_zero, List.drop_nil, List.map_eq_nil_iff, List.filter_eq_nil_iff]
        intro pair member inside
        rw [← List.zip_cons_cons] at member
        have listed : pair.2 ∈ places here (c :: rest) := (List.of_mem_zip member).2
        have place : here ≤ pair.2 := le_of_mem_places listed
        simp only [decide_eq_true_eq] at inside
        exact not_lt_of_le (le_trans reached place) inside.2

theorem slice_eq_between (fits : Fits text) (p q : Position) : slice text p q = between text p q := by
  have counted (p : Position) : index text p = countBefore start p text := by
    by_cases last : p = fileEnd
    · rw [last, index_fileEnd, countBefore_fileEnd fits]
    · exact index_eq_count last
  rw [slice_eq, counted, counted]
  exact (filter_places start p q text).symm

/-! ## Bytes -/

theorem byteOffset_valid (text : List Char) (p : Position) :
    String.Pos.Raw.IsValid (String.ofList text) ⟨byteOffset text p⟩ := by
  refine String.Pos.Raw.isValid_iff_exists_append.mpr
    ⟨String.ofList (text.take (index text p)), String.ofList (text.drop (index text p)), ?_, ?_⟩
  · rw [← String.ofList_append, List.take_append_drop]
  · rw [String.rawEndPos, Text.utf8ByteSize_ofList]
    rfl

theorem byteOffset_le_of_index (text : List Char) (ordered : index text p ≤ index text q) :
    byteOffset text p ≤ byteOffset text q := by
  rw [byteOffset, byteOffset, ← Nat.add_sub_cancel' ordered, List.take_add, Text.byteLength_append]
  exact Nat.le_add_right _ _

theorem slice_bytes (text : List Char) (p q : Position) :
    (String.ofList (slice text p q)).toByteArray =
      (String.ofList text).toByteArray.extract (byteOffset text p) (byteOffset text q) := by
  rw [String.toByteArray_ofList, String.toByteArray_ofList]
  rcases Nat.le_total (index text p) (index text q) with ordered | reversed
  · have middle : text.take (index text q) = text.take (index text p) ++ slice text p q := by
      have front : (text.take (index text q)).take (index text p) = text.take (index text p) := by
        rw [List.take_take, Nat.min_eq_left ordered]
      rw [slice_eq, ← front, List.take_append_drop]
    have whole : text = text.take (index text p) ++ (slice text p q ++ text.drop (index text q)) := by
      rw [← List.append_assoc, ← middle, List.take_append_drop]
    have cut := Text.extract_utf8Encode (text.take (index text p)) (slice text p q) (text.drop (index text q))
    rw [← whole, ← middle] at cut
    exact cut.symm
  · have empty : slice text p q = [] := by
      rw [slice_eq, List.drop_eq_nil_of_le]
      exact Nat.le_trans (List.length_take_le _ _) reversed
    have none := byteOffset_le_of_index text reversed
    rw [empty, ByteArray.extract_eq_empty_iff.mpr (Nat.le_trans (Nat.min_le_left _ _) none)]
    rfl

theorem slice_eq_nil_of_byteOffset (reversed : byteOffset text q ≤ byteOffset text p) : slice text p q = [] := by
  have bytes := slice_bytes text p q
  rw [ByteArray.extract_eq_empty_iff.mpr (Nat.le_trans (Nat.min_le_left _ _) reversed)] at bytes
  have size := congrArg ByteArray.size bytes
  rw [String.size_toByteArray, Text.utf8ByteSize_ofList] at size
  cases cut : slice text p q with
  | nil => rfl
  | cons c rest =>
      have positive := c.utf8Size_pos
      simp only [cut, Text.byteLength, ByteArray.size_empty] at size
      omega

/-- Positions that do not decrease from the beginning to the end cut a text into slices that give it back. A position
never stands inside a character, a slice is the bytes between its two positions, and its characters are those whose
places are between them. -/
theorem slices_rebuild (text : List Char) :
    (∀ boundaries, boundaries.head? = some start → boundaries.getLast? = some fileEnd →
      boundaries.IsChain (· ≤ ·) → slices text boundaries = text) ∧
    (∀ p, byteOffset text p ≤ (String.ofList text).utf8ByteSize ∧
      String.Pos.Raw.IsValid (String.ofList text) ⟨byteOffset text p⟩) ∧
    (∀ p q, (String.ofList (slice text p q)).toByteArray =
        (String.ofList text).toByteArray.extract (byteOffset text p) (byteOffset text q) ∧
      (byteOffset text q ≤ byteOffset text p → slice text p q = []) ∧
      (q ≤ p → p ≤ fileEnd → slice text p q = [])) ∧
    (Fits text → ∀ p q, slice text p q = between text p q) := by
  refine ⟨fun boundaries begins ends chain => ?_, fun p => ?_, fun p q => ?_, slice_eq_between⟩
  · cases boundaries with
    | nil => cases begins
    | cons first rest =>
        obtain rfl : first = start := Option.some.inj begins
        have none : index text start = 0 := by cases text <;> rfl
        rw [(slices_from chain ends).2, none, List.drop_zero]
  · have valid := byteOffset_valid text p
    exact ⟨valid.le_rawEndPos, valid⟩
  · refine ⟨slice_bytes text p q, slice_eq_nil_of_byteOffset, fun reversed bounded => ?_⟩
    exact slice_eq_nil_of_byteOffset (byteOffset_le_of_index text (index_mono reversed bounded))

/-- Boundaries behind the end of a line with a wide character, in the middle of the next, and behind the text. -/
theorem slices_rebuild_clamped :
    ∃ text boundaries, text = "é\nab".toList ∧
      boundaries = [start, ⟨1, 1⟩, ⟨1, 9⟩, ⟨2, 1⟩, ⟨2, 1⟩, ⟨5, 0⟩, fileEnd] ∧ slices text boundaries = text ∧
      boundaries.map (byteOffset text) = [0, 2, 3, 4, 4, 5, 5] ∧
      String.Pos.Raw.IsValid (String.ofList text) ⟨byteOffset text ⟨1, 1⟩⟩ ∧
      (String.ofList (slice text ⟨1, 1⟩ ⟨2, 1⟩)).toByteArray = (String.ofList text).toByteArray.extract 2 4 ∧
      slice text ⟨2, 1⟩ ⟨1, 1⟩ = [] ∧ slice text ⟨1, 1⟩ ⟨2, 1⟩ = between text ⟨1, 1⟩ ⟨2, 1⟩ := by
  obtain ⟨rebuilt, valid, cut, characters⟩ := slices_rebuild "é\nab".toList
  refine ⟨_, _, rfl, rfl, rebuilt _ rfl rfl (by decide), by decide, (valid ⟨1, 1⟩).2, (cut ⟨1, 1⟩ ⟨2, 1⟩).1,
    (cut ⟨2, 1⟩ ⟨1, 1⟩).2.1 (by decide), characters (by decide) _ _⟩

end Position

end Exemplar
