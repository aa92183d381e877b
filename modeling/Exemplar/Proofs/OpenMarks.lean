import Exemplar.Proofs.CodeLexemes
import Exemplar.Proofs.Splicing

/-!
# Strings and comments that a text leaves open

Texts on lines of their own are read one after another, unless one of them leaves a string or a block comment open that
a later one closes. If none does, then what is open in one of them is open in all of them together.
-/

namespace Exemplar

open Reader

/-- A string that is open at the end of a line goes on to where the next lines close it. -/
theorem Text.closeQuote_break {left : List Char} (leftOpen : closeQuote left = none) (right : List Char) :
    closeQuote (left ++ '\n' :: right) = (closeQuote right).map fun (body, after) => (left ++ '\n' :: body, after) := by
  fun_induction closeQuote left with
  | case1 => simp [closeQuote]
  | case2 rest => cases leftOpen
  | case3 c rest ih =>
      rw [List.cons_append, List.cons_append, closeQuote, ih (Option.map_eq_none_iff.mp leftOpen), Option.map_map]
      rfl
  | case4 => simp [closeQuote]
  | case5 c rest noQuote noEscape noEnd ih =>
      have plain := ne_backslash noEscape noEnd
      rw [List.cons_append, closeQuote, ih (Option.map_eq_none_iff.mp leftOpen), Option.map_map]
      · rfl
      · exact noQuote
      · exact fun d more same => absurd same plain
      · exact fun same => absurd same plain

theorem Text.closeQuote_past {gap : List Char} (noQuote : '"' ∉ gap) (noEscape : '\\' ∉ gap) (later : List Char) :
    closeQuote (gap ++ later) = (closeQuote later).map fun (body, after) => (gap ++ body, after) := by
  induction gap with
  | nil => simp
  | cons c rest ih =>
      have isNoQuote : c ≠ '"' := fun same => noQuote (by simp [same])
      have isNoEscape : c ≠ '\\' := fun same => noEscape (by simp [same])
      have later := ih (fun member => noQuote (List.mem_cons_of_mem c member))
        fun member => noEscape (List.mem_cons_of_mem c member)
      rw [List.cons_append, closeQuote, later, Option.map_map]
      · rfl
      · exact isNoQuote
      · exact fun d more same => absurd same isNoEscape
      · exact fun same => absurd same isNoEscape

namespace Lexeme

/-- A block comment that is open at the end of a line goes on to where the next lines close it. -/
theorem closeBlock_break {left : List Char} (leftOpen : closeBlock left = none) (right : List Char) :
    closeBlock (left ++ '\n' :: right) = (closeBlock right).map fun (body, after) => (left ++ '\n' :: body, after) := by
  fun_induction closeBlock left with
  | case1 => simp [closeBlock]
  | case2 rest => cases leftOpen
  | case3 c rest notClosing ih =>
      rw [List.cons_append, closeBlock, ih (Option.map_eq_none_iff.mp leftOpen), Option.map_map]
      · rfl
      · intro more bar hash
        cases rest with
        | nil => simp at hash
        | cons d others => exact notClosing others bar (by rw [(List.cons.inj hash).1])

theorem closeBlock_past {gap : List Char} (plain : '|' ∉ gap) (later : List Char) :
    closeBlock (gap ++ later) = (closeBlock later).map fun (body, after) => (gap ++ body, after) := by
  induction gap with
  | nil => simp
  | cons c rest ih =>
      have noBar : c ≠ '|' := fun same => plain (by simp [same])
      rw [List.cons_append, closeBlock, ih fun member => plain (List.mem_cons_of_mem c member), Option.map_map]
      · rfl
      · exact fun more bar => absurd bar noBar

/-- Whether `later` closes the first string or block comment that lexemes leave open. -/
def closes (lexemes : List Lexeme) (later : List Char) : Bool :=
  match lexemes.dropWhile (!·.isStray) with
  | mark '"' :: _ => (Text.closeQuote later).isSome
  | mark '#' :: mark '|' :: _ => (closeBlock later).isSome
  | _ => false

variable {lexemes : List Lexeme}

theorem closes_of_closed (closed : ∀ lexeme ∈ lexemes, lexeme.isStray = false) (later : List Char) :
    closes lexemes later = false := by
  have none : lexemes.dropWhile (!·.isStray) = [] := by simpa using closed
  rw [closes, none]

theorem closes_break {left right : List Char} (leftOpen : closes lexemes left = false)
    (rightOpen : closes lexemes right = false) : closes lexemes (left ++ '\n' :: right) = false := by
  unfold closes at *
  split
  · next same =>
      simp only [same, Option.isSome_eq_false_iff, Option.isNone_iff_eq_none] at leftOpen rightOpen ⊢
      rw [Text.closeQuote_break leftOpen, rightOpen]
      rfl
  · next same =>
      simp only [same, Option.isSome_eq_false_iff, Option.isNone_iff_eq_none] at leftOpen rightOpen ⊢
      rw [closeBlock_break leftOpen, rightOpen]
      rfl
  · rfl

theorem closes_joinLines {pieces : List (List Char)} (none : ∀ piece ∈ pieces, closes lexemes piece = false) :
    closes lexemes (Text.joinLines pieces) = false := by
  induction pieces with
  | nil =>
      unfold closes
      split <;> rfl
  | cons piece rest ih =>
      obtain ⟨here, later⟩ := List.forall_mem_cons.mp none
      cases rest with
      | nil => exact here
      | cons second more => exact closes_break here (ih later)

theorem opens_mark {c : Char} {after : List Char} : (mark c).Opens after ↔ first c after = mark c := by
  constructor
  · rintro ⟨d, rest, same, found⟩
    obtain ⟨rfl, rfl⟩ := List.cons.inj same
    exact found
  · exact fun found => ⟨c, after, rfl, found⟩

theorem opens_quote {after : List Char} : (mark '"').Opens after ↔ Text.closeQuote after = none := by
  rw [opens_mark]
  cases closed : Text.closeQuote after <;> simp [first, closed]

theorem opens_hash {after : List Char} :
    (mark '#').Opens after ↔ ∀ inner, after = '|' :: inner → closeBlock inner = none := by
  rw [opens_mark]
  cases after with
  | nil => simp [first]
  | cons d inner =>
      by_cases bar : d = '|'
      · subst bar
        cases closed : closeBlock inner <;> simp [first, closed]
      · simp [first, bar]

/-- A quote or comment mark that nothing closes stays one before a line that does not close it either. -/
theorem Opens.before_break {c : Char} {rest : List Lexeme} {right : List Char} (opens : (mark c).Opens (texts rest))
    (leads : Leads [] rest) (stray : (mark c).isStray = true) (stays : closes (mark c :: rest) right = false) :
    (mark c).Opens (texts rest ++ '\n' :: right) := by
  have kept : (mark c :: rest).dropWhile (!·.isStray) = mark c :: rest := by simp [stray]
  unfold closes at stays
  rw [kept] at stays
  rw [isStray, Bool.or_eq_true, beq_iff_eq, beq_iff_eq] at stray
  rcases stray with rfl | rfl
  · have rightOpen : Text.closeQuote right = none := by simpa using stays
    rw [opens_quote, Text.closeQuote_break (opens_quote.mp opens), rightOpen]
    rfl
  · refine opens_hash.mpr fun inner begins => ?_
    cases rest with
    | nil => cases begins
    | cons next more =>
        -- A bar is a lexeme of its own.
        obtain ⟨d, others, same, isNext⟩ := leads.1
        obtain ⟨e, tail, spelled⟩ := List.exists_cons_of_ne_nil leads.1.text_ne_nil
        rw [texts_cons, spelled, List.cons_append] at begins
        rw [spelled, List.cons_append] at same
        obtain rfl : e = '|' := (List.cons.inj begins).1
        obtain rfl : '|' = d := (List.cons.inj same).1
        obtain rfl : mark '|' = next := isNext
        have rightOpen : closeBlock right = none := by simpa using stays
        obtain rfl : inner = texts more ++ '\n' :: right := by
          cases spelled
          exact (List.cons.inj begins).2.symm
        rw [closeBlock_break (opens_hash.mp opens (texts more) rfl), rightOpen]
        rfl

section

variable {left : List Char} {c : Char} {rest : List Lexeme}

theorem leads_of_stray (isTail : (all left).dropWhile (!·.isStray) = mark c :: rest) :
    (mark c).Opens (texts rest) ∧ Leads [] rest := by
  have leads := leads_all left
  rw [← List.takeWhile_append_dropWhile (p := (!·.isStray)) (l := all left), isTail] at leads
  obtain ⟨_, opens, restLeads⟩ := leads_append.mp leads
  rw [List.append_nil] at opens
  exact ⟨opens, restLeads⟩

/-- The lexemes before the first stray mark of a text do not depend on what follows the text. -/
theorem all_append_of_stray (isTail : (all left).dropWhile (!·.isStray) = mark c :: rest) (after : List Char) :
    all (left ++ after) = (all left).takeWhile (!·.isStray) ++ all (c :: (texts rest ++ after)) := by
  obtain ⟨passed, isPassed, closed⟩ : ∃ passed, (all left).takeWhile (!·.isStray) = passed ∧
      ∀ lexeme ∈ passed, lexeme.isStray = false :=
    ⟨_, rfl, fun lexeme member => by simpa using List.mem_takeWhile_imp member⟩
  have parts : all left = passed ++ mark c :: rest := by
    rw [← isPassed, ← isTail, List.takeWhile_append_dropWhile]
  have leads := leads_all left
  rw [parts] at leads
  have passedLeads := (leads_append.mp leads).1
  have ends : ∀ last ∈ passed.getLast?, last.EndsBefore (c :: (texts rest ++ after)) :=
    fun last member => (passedLeads.last last member).of_head rfl
  have spelled : left ++ after = texts passed ++ (c :: (texts rest ++ after)) := by
    rw [← texts_all left, parts]
    simp [text]
  rw [isPassed, spelled, all_of_leads (passedLeads.change closed ends)]

theorem all_string_past {inner gap later body after : List Char} (leftOpen : Text.closeQuote inner = none)
    (noQuote : '"' ∉ gap) (noEscape : '\\' ∉ gap) (ends : Text.closeQuote later = some (body, after))
    (tail : List Char) :
    all ('"' :: (inner ++ '\n' :: (gap ++ (later ++ tail)))) =
      string (inner ++ '\n' :: (gap ++ body)) :: all (after ++ tail) := by
  have whole : later ++ tail = body ++ '"' :: (after ++ tail) := by rw [Text.closeQuote_text ends]; simp
  have closed : Text.closeQuote (inner ++ '\n' :: (gap ++ (later ++ tail))) =
      some (inner ++ '\n' :: (gap ++ body), after ++ tail) := by
    rw [Text.closeQuote_break leftOpen, Text.closeQuote_past noQuote noEscape, whole, Text.closeQuote_before ends]
    rfl
  have spelled : (string (inner ++ '\n' :: (gap ++ body))).text ++ (after ++ tail) =
      '"' :: (inner ++ '\n' :: (gap ++ (later ++ tail))) := by simp [text, whole]
  rw [← spelled]
  exact all_of_opens _ ⟨'"', _, spelled, first_string.mpr ⟨rfl, _, closed⟩⟩

theorem all_block_past {inner gap later body after : List Char} (leftOpen : closeBlock inner = none) (noBar : '|' ∉ gap)
    (ends : closeBlock later = some (body, after)) (tail : List Char) :
    all ('#' :: '|' :: (inner ++ '\n' :: (gap ++ (later ++ tail)))) =
      block (inner ++ '\n' :: (gap ++ body)) :: all (after ++ tail) := by
  have whole : later ++ tail = body ++ '|' :: '#' :: (after ++ tail) := by rw [closeBlock_text ends]; simp
  have closed : closeBlock (inner ++ '\n' :: (gap ++ (later ++ tail))) =
      some (inner ++ '\n' :: (gap ++ body), after ++ tail) := by
    rw [closeBlock_break leftOpen, closeBlock_past noBar, whole, closeBlock_before ends]
    rfl
  have spelled : (block (inner ++ '\n' :: (gap ++ body))).text ++ (after ++ tail) =
      '#' :: '|' :: (inner ++ '\n' :: (gap ++ (later ++ tail))) := by simp [text, whole]
  rw [← spelled]
  exact all_of_opens _ ⟨'#', _, spelled, first_block.mpr ⟨rfl, _, _, rfl, closed⟩⟩

/-- What a text leaves open ends where a later text closes it, with all that stands between the two inside of it. -/
theorem all_of_closes {later : List Char} (closed : closes (all left) later = true) :
    ∃ passed kind inner body after, (kind = string ∨ kind = block) ∧
      ∀ gap tail : List Char, '"' ∉ gap → '\\' ∉ gap → '|' ∉ gap →
        all (left ++ '\n' :: (gap ++ (later ++ tail))) =
          passed ++ kind (inner ++ '\n' :: (gap ++ body)) :: all (after ++ tail) := by
  unfold closes at closed
  split at closed
  · next rest isTail =>
      obtain ⟨⟨body, after⟩, ends⟩ := Option.isSome_iff_exists.mp closed
      have leftOpen := opens_quote.mp (leads_of_stray isTail).1
      refine ⟨(all left).takeWhile (!·.isStray), string, texts rest, body, after, .inl rfl, ?_⟩
      intro gap tail noQuote noEscape _
      rw [all_append_of_stray isTail, all_string_past leftOpen noQuote noEscape ends]
  · next rest isTail =>
      obtain ⟨⟨body, after⟩, ends⟩ := Option.isSome_iff_exists.mp closed
      have leftOpen := opens_hash.mp (leads_of_stray isTail).1 (texts rest) rfl
      refine ⟨(all left).takeWhile (!·.isStray), block, texts rest, body, after, .inr rfl, ?_⟩
      intro gap tail _ _ noBar
      rw [all_append_of_stray isTail]
      exact congrArg _ (all_block_past leftOpen noBar ends tail)
  · cases closed

end

/-- What a text leaves open stays open before a line that does not close it. -/
theorem stray_before_break {left right : List Char} (stray : ∃ lexeme ∈ all left, lexeme.isStray = true)
    (stays : closes (all left) right = false) : ∃ lexeme ∈ all (left ++ '\n' :: right), lexeme.isStray = true := by
  cases isTail : (all left).dropWhile (!·.isStray) with
  | nil =>
      obtain ⟨lexeme, member, isStray⟩ := stray
      have closed : ∀ lexeme ∈ all left, lexeme.isStray = false := by simpa using isTail
      rw [closed lexeme member] at isStray
      cases isStray
  | cons lexeme rest =>
      have isStray : lexeme.isStray = true := by
        have stops := List.head?_dropWhile_not (!·.isStray) (all left)
        rw [isTail] at stops
        simpa using stops
      cases lexeme with
      | mark c =>
          have same : closes (mark c :: rest) right = closes (all left) right := by
            simp only [closes, isTail, List.dropWhile_cons, isStray]
            rfl
          obtain ⟨opens, restLeads⟩ := leads_of_stray isTail
          have stillOpen := opens.before_break restLeads isStray (same.trans stays)
          refine ⟨mark c, ?_, isStray⟩
          rw [all_append_of_stray isTail]
          exact List.mem_append_right _ (all_of_opens _ stillOpen ▸ List.mem_cons_self)
      | _ => cases isStray

/-- Pieces none of which closes what an earlier one leaves open leave nothing open when together they do not. -/
theorem closed_of_joinLines {pieces : List (List Char)}
    (apart : pieces.Pairwise fun piece later => closes (all piece) later = false)
    (closed : ∀ lexeme ∈ all (Text.joinLines pieces), lexeme.isStray = false) :
    ∀ piece ∈ pieces, ∀ lexeme ∈ all piece, lexeme.isStray = false := by
  induction pieces with
  | nil => exact fun _ member => absurd member List.not_mem_nil
  | cons piece rest ih =>
      cases rest with
      | nil => exact List.forall_mem_singleton.mpr closed
      | cons second more =>
          obtain ⟨here, later⟩ := List.pairwise_cons.mp apart
          rw [Text.joinLines_cons_cons] at closed
          have first : ∀ lexeme ∈ all piece, lexeme.isStray = false := by
            by_contra stray
            have some : ∃ lexeme ∈ all piece, lexeme.isStray = true := by simpa using stray
            obtain ⟨lexeme, member, isStray⟩ := stray_before_break some (closes_joinLines here)
            rw [closed lexeme member] at isStray
            cases isStray
          rw [all_append_break first] at closed
          exact List.forall_mem_cons.mpr
            ⟨first, ih later fun lexeme member => closed lexeme (by simp [member])⟩

end Lexeme

/-- Pieces that leave nothing open are read one after another. -/
theorem Reader.Outline.steps_joinLines {pieces : List (List Char)}
    (closed : ∀ piece ∈ pieces, ∀ lexeme ∈ Lexeme.all piece, lexeme.isStray = false) (outline : Outline) :
    outline.steps (Lexeme.all (Text.joinLines pieces)) = outline.steps (pieces.flatMap Lexeme.all) := by
  induction pieces generalizing outline with
  | nil => rfl
  | cons piece rest ih =>
      obtain ⟨here, later⟩ := List.forall_mem_cons.mp closed
      cases rest with
      | nil => simp [Text.joinLines, Text.join]
      | cons second more =>
          rw [Text.joinLines_cons_cons, Lexeme.all_append_break here, List.flatMap_cons, steps_append, steps_append]
          exact Option.bind_congr fun next _ => ih later next

end Exemplar
