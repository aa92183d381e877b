import Exemplar.Proofs.Outline
import Exemplar.Proofs.Trivia

/-!
# Forms outside of everything

A place in a program that lies in none of its top-level nodes is one at which nothing is open. The nodes then fall
into those finished before it and those that begin behind it.
-/

namespace Exemplar

namespace Bracket

theorem ofOpening?_eq_some_iff {c : Char} {bracket : Bracket} : ofOpening? c = some bracket ↔ c = bracket.opening := by
  unfold ofOpening?
  cases bracket <;> grind [opening]

theorem ofClosing?_eq_some_iff {c : Char} {bracket : Bracket} : ofClosing? c = some bracket ↔ c = bracket.closing := by
  unfold ofClosing?
  cases bracket <;> grind [closing]

end Bracket

namespace Lexeme

theorem byteLength_pos {text : List Char} (nonempty : text ≠ []) : 0 < Text.byteLength text := by
  obtain ⟨c, rest, rfl⟩ := List.exists_cons_of_ne_nil nonempty
  exact Nat.lt_of_lt_of_le c.utf8Size_pos (Nat.le_add_right _ _)

@[simp] theorem byteLength_quote : Text.byteLength (mark '\'').text = 1 := rfl

@[simp] theorem byteLength_opening (bracket : Bracket) : Text.byteLength (mark bracket.opening).text = 1 := by
  cases bracket <;> rfl

@[simp] theorem byteLength_closing (bracket : Bracket) : Text.byteLength (mark bracket.closing).text = 1 := by
  cases bracket <;> rfl

/-- The atom that a lexeme spells. -/
def atom? : Lexeme → Option Atom
  | string body => some (.string (String.ofList (Text.decode body)))
  | word characters => Atom.ofWord? characters
  | _ => none

theorem text_ne_nil_of_atom? {lexeme : Lexeme} {a : Atom} (spelled : lexeme.atom? = some a) : lexeme.text ≠ [] := by
  cases lexeme with
  | word characters =>
      rintro rfl
      cases spelled
  | _ => simp [text]

theorem isTrivia_of_atom? {lexeme : Lexeme} {a : Atom} (spelled : lexeme.atom? = some a) : lexeme.isTrivia = false := by
  cases lexeme with
  | string body => rfl
  | word characters => rfl
  | _ => cases spelled

end Lexeme

open Lexeme

namespace Reader.Reading

theorem close_cases {reading next : Reading} {bracket : Bracket} {offset : Nat}
    (closed : reading.close bracket offset = .ok next) :
    ∃ start items rest, reading.stack = ⟨.bracket bracket, start, items⟩ :: rest ∧
      next = push ⟨reading.offset, rest, reading.done⟩ (.group ⟨start, offset⟩ bracket items.reverse) offset := by
  unfold close at closed
  split at closed
  · next opened start items rest isOpen =>
      split at closed
      · next right =>
          cases closed
          subst right
          exact ⟨start, items, rest, isOpen, rfl⟩
      · cases closed
  · cases closed

/-- What each lexeme does to a reading that goes on. -/
theorem step_ok {reading next : Reading} {lexeme : Lexeme} (read : reading.step lexeme = .ok next) :
    (lexeme.isTrivia = true ∧ next = reading.skip (reading.offset + Text.byteLength lexeme.text)) ∨
    (∃ a, lexeme.atom? = some a ∧ next = reading.push
      (.atom ⟨reading.offset, reading.offset + Text.byteLength lexeme.text⟩ a)
      (reading.offset + Text.byteLength lexeme.text)) ∨
    (lexeme = mark '\'' ∧ next = reading.descend .quote (reading.offset + 1)) ∨
    (∃ bracket : Bracket, lexeme = mark bracket.opening ∧
      next = reading.descend (.bracket bracket) (reading.offset + 1)) ∨
    ∃ bracket : Bracket, lexeme = mark bracket.closing ∧ ∃ start items rest,
      reading.stack = ⟨.bracket bracket, start, items⟩ :: rest ∧
        next = push ⟨reading.offset, rest, reading.done⟩
          (.group ⟨start, reading.offset + 1⟩ bracket items.reverse) (reading.offset + 1) := by
  cases lexeme with
  | block body => cases read; exact .inl ⟨rfl, rfl⟩
  | line body => cases read; exact .inl ⟨rfl, rfl⟩
  | string body => cases read; exact .inr (.inl ⟨_, rfl, rfl⟩)
  | word characters =>
      unfold step at read
      dsimp only at read
      cases spelled : Atom.ofWord? characters with
      | none => rw [spelled] at read; cases read
      | some a =>
          rw [spelled] at read
          cases read
          exact .inr (.inl ⟨a, spelled, rfl⟩)
  | mark c =>
      unfold step at read
      dsimp only at read
      split at read
      · next space => cases read; exact .inl ⟨space, rfl⟩
      · split at read
        · next quote => cases read; subst quote; exact .inr (.inr (.inl ⟨rfl, rfl⟩))
        · split at read
          · next bracket opening =>
              obtain rfl := Bracket.ofOpening?_eq_some_iff.mp opening
              cases read
              exact .inr (.inr (.inr (.inl ⟨bracket, rfl, by rw [byteLength_opening]⟩)))
          · split at read
            · next bracket closing =>
                obtain rfl := Bracket.ofClosing?_eq_some_iff.mp closing
                rw [byteLength_closing] at read
                exact .inr (.inr (.inr (.inr ⟨bracket, rfl, close_cases read⟩)))
            · cases read

/-- What reading one lexeme can do. Comments and blanks are skipped; quotes and brackets take one byte. -/
theorem step_cases {reading next : Reading} {lexeme : Lexeme} (read : reading.step lexeme = .ok next) :
    (lexeme.isTrivia = true ∧ ∃ offset, next = reading.skip offset ∧ reading.offset ≤ offset) ∨
    lexeme.isTrivia = false ∧
      ((∃ opener, next = reading.descend opener (reading.offset + 1)) ∨
      (∃ a offset, next = reading.push (.atom ⟨reading.offset, offset⟩ a) offset ∧ reading.offset < offset) ∨
      ∃ bracket start items rest, reading.stack = ⟨.bracket bracket, start, items⟩ :: rest ∧
        next = push ⟨reading.offset, rest, reading.done⟩
          (.group ⟨start, reading.offset + 1⟩ bracket items.reverse) (reading.offset + 1)) := by
  rcases step_ok read with ⟨trivia, rfl⟩ | ⟨a, spelled, rfl⟩ | ⟨rfl, rfl⟩ | ⟨bracket, rfl, rfl⟩ | ⟨bracket, rfl, opened⟩
  · exact .inl ⟨trivia, _, rfl, Nat.le_add_right _ _⟩
  · have positive := byteLength_pos (text_ne_nil_of_atom? spelled)
    exact .inr ⟨isTrivia_of_atom? spelled, .inr (.inl ⟨a, _, rfl, Nat.lt_add_of_pos_right positive⟩)⟩
  · exact .inr ⟨rfl, .inl ⟨_, rfl⟩⟩
  · exact .inr ⟨by cases bracket <;> rfl, .inl ⟨_, rfl⟩⟩
  · exact .inr ⟨by cases bracket <;> rfl, .inr (.inr ⟨bracket, opened⟩)⟩

theorem steps_cons_ok {reading next : Reading} {lexeme : Lexeme} {rest : List Lexeme}
    (read : reading.steps (lexeme :: rest) = .ok next) :
    ∃ middle, reading.step lexeme = .ok middle ∧ middle.steps rest = .ok next := by
  cases first : reading.step lexeme with
  | error fault => simp [steps, first, bind, Except.bind] at read
  | ok middle => exact ⟨middle, rfl, by simpa [steps, first, bind, Except.bind] using read⟩

theorem finish_ok {reading : Reading} {nodes : List Node} (finished : reading.finish = .ok nodes) :
    reading.stack = [] ∧ nodes = reading.done.reverse := by
  unfold finish at finished
  split at finished
  · next empty =>
      cases finished
      exact ⟨List.isEmpty_iff.mp empty, rfl⟩
  · cases finished

/-- What every step keeps is kept by reading lexemes in order. -/
theorem steps_keep {holds : Reading → Prop}
    (keep : ∀ {reading next lexeme}, holds reading → reading.step lexeme = .ok next → holds next)
    {reading next : Reading} {lexemes : List Lexeme} (initially : holds reading)
    (read : reading.steps lexemes = .ok next) : holds next := by
  induction lexemes generalizing reading with
  | nil => cases read; exact initially
  | cons lexeme rest ih =>
      obtain ⟨middle, first, later⟩ := steps_cons_ok read
      exact ih (keep initially first) later

theorem steps_append (reading : Reading) (left right : List Lexeme) :
    reading.steps (left ++ right) = (reading.steps left).bind (·.steps right) := by
  induction left generalizing reading with
  | nil => rfl
  | cons lexeme rest ih =>
      rw [List.cons_append, steps, steps]
      cases reading.step lexeme with
      | error fault => rfl
      | ok next => exact ih next

theorem steps_not_stray {reading next : Reading} {lexemes : List Lexeme} (read : reading.steps lexemes = .ok next) :
    ∀ lexeme ∈ lexemes, lexeme.isStray = false := by
  have outlined := steps_outline reading lexemes
  rw [read] at outlined
  exact Outline.steps_not_stray outlined.symm

/-! ## Finished nodes -/

/-- A finished node ends up inside a group that is still open, or it finishes all that is open and with it the
outermost quotation, whose place it then starts at. -/
theorem push_cases (reading : Reading) (node : Node) (next : Nat) :
    (reading.stack ≠ [] ∧ (reading.push node next).done = reading.done ∧
      (reading.push node next).stack.getLast?.map (·.start) = reading.stack.getLast?.map (·.start) ∧
      ∀ pending ∈ (reading.push node next).stack, ∃ outer ∈ reading.stack, pending.start = outer.start) ∨
    (reading.push node next).stack = [] ∧ ∃ whole, (reading.push node next).done = whole :: reading.done ∧
      whole.span.stop = node.span.stop ∧
      whole.span.start = (reading.stack.getLast?.map (·.start)).getD node.span.start := by
  obtain ⟨offset, stack, done⟩ := reading
  unfold push
  dsimp only
  induction stack generalizing node with
  | nil => exact .inr ⟨rfl, node, rfl, rfl, rfl⟩
  | cons pending rest ih =>
      obtain ⟨opener, start, items⟩ := pending
      cases opener with
      | bracket bracket =>
          refine .inl ⟨List.cons_ne_nil _ _, rfl, ?_, ?_⟩
          · cases rest <;> simp [place, List.getLast?_cons_cons]
          · intro pending member
            simp only [place, List.mem_cons] at member
            rcases member with rfl | later
            · exact ⟨_, List.mem_cons_self, rfl⟩
            · exact ⟨pending, List.mem_cons_of_mem _ later, rfl⟩
      | quote =>
          rcases ih (.quote ⟨start, node.span.stop⟩ node) with
            ⟨nonempty, same, bottom, starts⟩ | ⟨empty, whole, same, ends, starts⟩
          · refine .inl ⟨List.cons_ne_nil _ _, same, ?_, fun pending member => ?_⟩
            · cases rest with
              | nil => exact absurd rfl nonempty
              | cons next more => rw [List.getLast?_cons_cons]; exact bottom
            · obtain ⟨outer, isOpen, sameStart⟩ := starts pending member
              exact ⟨outer, List.mem_cons_of_mem _ isOpen, sameStart⟩
          · refine .inr ⟨empty, whole, same, ends, ?_⟩
            cases rest with
            | nil => exact starts
            | cons next more =>
                rw [List.getLast?_cons_cons]
                simpa [List.getLast?_cons] using starts

/-! ## What is kept while reading -/

/-- All that has been read begins before the offset. -/
structure Begun (reading : Reading) : Prop where
  finished : ∀ node ∈ reading.done, node.span.start < reading.offset
  pending : ∀ pending ∈ reading.stack, pending.start < reading.offset

theorem Begun.initial : Begun .initial := ⟨by simp [Reading.initial], by simp [Reading.initial]⟩

theorem Begun.push {reading : Reading} {node : Node} {next : Nat} (begun : reading.Begun)
    (starts : node.span.start < next) (ahead : reading.offset ≤ next) : (reading.push node next).Begun := by
  have bottom : (reading.stack.getLast?.map (·.start)).getD node.span.start < next := by
    cases last : reading.stack.getLast? with
    | none => exact starts
    | some pending => exact Nat.lt_of_lt_of_le (begun.pending pending (List.mem_of_getLast? last)) ahead
  rcases push_cases reading node next with ⟨_, same, _, starts'⟩ | ⟨empty, whole, same, _, start⟩
  · constructor
    · intro other member
      have old : other ∈ reading.done := same ▸ member
      exact Nat.lt_of_lt_of_le (begun.finished other old) ahead
    · intro pending member
      obtain ⟨outer, isOpen, sameStart⟩ := starts' pending member
      rw [sameStart]
      exact Nat.lt_of_lt_of_le (begun.pending outer isOpen) ahead
  · constructor
    · intro other member
      have cases' : other ∈ whole :: reading.done := same ▸ member
      rcases List.mem_cons.mp cases' with rfl | old
      · rw [start]; exact bottom
      · exact Nat.lt_of_lt_of_le (begun.finished other old) ahead
    · intro pending member
      have none : pending ∈ ([] : List Pending) := empty ▸ member
      cases none

theorem step_begun {reading next : Reading} {lexeme : Lexeme} (begun : reading.Begun)
    (read : reading.step lexeme = .ok next) : next.Begun := by
  have one := Nat.lt_add_one reading.offset
  rcases step_cases read with ⟨_, offset, rfl, ahead⟩ |
    ⟨_, ⟨opener, rfl⟩ | ⟨a, offset, rfl, ahead⟩ | ⟨bracket, start, items, rest, isOpen, rfl⟩⟩
  · exact ⟨fun node member => Nat.lt_of_lt_of_le (begun.finished node member) ahead,
      fun pending member => Nat.lt_of_lt_of_le (begun.pending pending member) ahead⟩
  · refine ⟨fun node member => Nat.lt_trans (begun.finished node member) one, fun pending member => ?_⟩
    rcases List.mem_cons.mp member with rfl | old
    · exact one
    · exact Nat.lt_trans (begun.pending pending old) one
  · exact begun.push ahead (Nat.le_of_lt ahead)
  · have opened := begun.pending _ (isOpen ▸ List.mem_cons_self)
    have inner : Begun ⟨reading.offset, rest, reading.done⟩ :=
      ⟨begun.finished, fun pending member => begun.pending pending (isOpen ▸ List.mem_cons_of_mem _ member)⟩
    exact inner.push (Nat.lt_trans opened one) (Nat.le_of_lt one)

/-- Since nothing was open at `place`, when `earlier` was finished, all else begins behind `place`. -/
structure Since (place : Nat) (earlier : List Node) (reading : Reading) : Prop where
  finished : ∃ later, reading.done = later ++ earlier ∧ ∀ node ∈ later, place ≤ node.span.start
  pending : ∀ pending ∈ reading.stack, place ≤ pending.start
  reached : place ≤ reading.offset

theorem Since.push {place : Nat} {earlier : List Node} {reading : Reading} {node : Node} {next : Nat}
    (since : Since place earlier reading) (starts : place ≤ node.span.start) (ahead : reading.offset ≤ next) :
    Since place earlier (reading.push node next) := by
  obtain ⟨later, isDone, begins⟩ := since.finished
  have bottom : place ≤ (reading.stack.getLast?.map (·.start)).getD node.span.start := by
    cases last : reading.stack.getLast? with
    | none => exact starts
    | some pending => exact since.pending pending (List.mem_of_getLast? last)
  rcases push_cases reading node next with ⟨_, same, _, starts'⟩ | ⟨empty, whole, same, _, start⟩
  · refine ⟨⟨later, same.trans isDone, begins⟩, ?_, Nat.le_trans since.reached ahead⟩
    intro pending member
    obtain ⟨outer, isOpen, sameStart⟩ := starts' pending member
    rw [sameStart]
    exact since.pending outer isOpen
  · refine ⟨⟨whole :: later, ?_, ?_⟩, ?_, Nat.le_trans since.reached ahead⟩
    · exact same.trans (by rw [isDone]; rfl)
    · intro other member
      rcases List.mem_cons.mp member with rfl | old
      · rw [start]; exact bottom
      · exact begins other old
    · intro pending member
      have none : pending ∈ ([] : List Pending) := empty ▸ member
      cases none

theorem step_since {place : Nat} {earlier : List Node} {reading next : Reading} {lexeme : Lexeme}
    (since : Since place earlier reading) (read : reading.step lexeme = .ok next) : Since place earlier next := by
  have one := Nat.lt_add_one reading.offset
  rcases step_cases read with ⟨_, offset, rfl, ahead⟩ |
    ⟨_, ⟨opener, rfl⟩ | ⟨a, offset, rfl, ahead⟩ | ⟨bracket, start, items, rest, isOpen, rfl⟩⟩
  · exact ⟨since.finished, since.pending, Nat.le_trans since.reached ahead⟩
  · refine ⟨since.finished, fun pending member => ?_, Nat.le_trans since.reached (Nat.le_of_lt one)⟩
    rcases List.mem_cons.mp member with rfl | old
    · exact since.reached
    · exact since.pending pending old
  · exact since.push since.reached (Nat.le_of_lt ahead)
  · have opened := since.pending _ (isOpen ▸ List.mem_cons_self)
    have inner : Since place earlier ⟨reading.offset, rest, reading.done⟩ :=
      ⟨since.finished, fun pending member => since.pending pending (isOpen ▸ List.mem_cons_of_mem _ member),
        since.reached⟩
    exact inner.push opened (Nat.le_of_lt one)

/-- What was outermost among the open at `place`, and began at `start`, is still so or has been finished since. -/
structure Holds (place start : Nat) (reading : Reading) : Prop where
  outermost : reading.stack.getLast?.map (·.start) = some start ∨
    ∃ node ∈ reading.done, node.span.start = start ∧ place < node.span.stop
  reached : place ≤ reading.offset

theorem Holds.push {place start : Nat} {reading : Reading} {node : Node} {next : Nat}
    (outermost : (reading.stack.getLast?.map (·.start)).getD node.span.start = start ∨
      ∃ node ∈ reading.done, node.span.start = start ∧ place < node.span.stop)
    (stops : node.span.stop = next) (reached : place ≤ reading.offset) (ahead : reading.offset < next) :
    Holds place start (reading.push node next) := by
  refine ⟨?_, Nat.le_trans reached (Nat.le_of_lt ahead)⟩
  rcases push_cases reading node next with ⟨nonempty, same, bottom, _⟩ | ⟨_, whole, same, ends, begins⟩
  · rcases outermost with here | ⟨other, member, found⟩
    · obtain ⟨pending, last⟩ := Option.ne_none_iff_exists'.mp (mt List.getLast?_eq_none_iff.mp nonempty)
      rw [last, Option.map_some] at here bottom
      exact .inl (bottom.trans (congrArg some here))
    · exact .inr ⟨other, same.symm ▸ member, found⟩
  · rcases outermost with here | ⟨other, member, found⟩
    · refine .inr ⟨whole, same.symm ▸ List.mem_cons_self, begins.trans here, ?_⟩
      rw [ends, stops]
      omega
    · exact .inr ⟨other, same.symm ▸ List.mem_cons_of_mem _ member, found⟩

theorem step_holds {place start : Nat} {reading next : Reading} {lexeme : Lexeme}
    (holds : Holds place start reading) (read : reading.step lexeme = .ok next) : Holds place start next := by
  have reached := holds.reached
  have one := Nat.lt_add_one reading.offset
  rcases step_cases read with ⟨_, offset, rfl, ahead⟩ |
    ⟨_, ⟨opener, rfl⟩ | ⟨a, offset, rfl, ahead⟩ | ⟨bracket, opened, items, rest, isOpen, rfl⟩⟩
  · exact ⟨holds.outermost, Nat.le_trans reached ahead⟩
  · refine ⟨holds.outermost.imp_left fun last => ?_, Nat.le_trans reached (Nat.le_of_lt one)⟩
    obtain ⟨pending, isLast, same⟩ := Option.map_eq_some_iff.mp last
    simp [descend, List.getLast?_cons, isLast, same]
  · refine .push (holds.outermost.imp_left fun last => ?_) rfl reached ahead
    rw [last]
    rfl
  · refine .push (holds.outermost.imp_left fun last => ?_) rfl reached one
    rw [isOpen, List.getLast?_cons, Option.map_some] at last
    have same := Option.some.inj last
    cases final : rest.getLast? with
    | none => rw [final] at same; exact same
    | some pending => rw [final] at same; exact same

/-! ## Places outside of every node -/

theorem step_offset {reading next : Reading} {lexeme : Lexeme} (read : reading.step lexeme = .ok next) :
    next.offset = reading.offset + Text.byteLength lexeme.text := by
  rcases step_ok read with ⟨_, rfl⟩ | ⟨_, _, rfl⟩ | ⟨rfl, rfl⟩ | ⟨bracket, rfl, rfl⟩ | ⟨bracket, rfl, _, _, _, _, rfl⟩
  · rfl
  · rfl
  · rfl
  · rw [byteLength_opening]
    rfl
  · rw [byteLength_closing]
    rfl

theorem steps_offset {reading next : Reading} {lexemes : List Lexeme} (read : reading.steps lexemes = .ok next) :
    next.offset = reading.offset + Text.byteLength (Lexeme.texts lexemes) := by
  induction lexemes generalizing reading with
  | nil => cases read; rfl
  | cons lexeme rest ih =>
      obtain ⟨middle, first, later⟩ := steps_cons_ok read
      rw [ih later, step_offset first, Lexeme.texts_cons, Text.byteLength_append, Nat.add_assoc]

/-- At a place outside of every top-level node nothing is open, and the nodes fall into those before it and those
behind it. -/
theorem finish_outside {reading final : Reading} {lexemes : List Lexeme} {nodes : List Node}
    (begun : reading.Begun) (read : reading.steps lexemes = .ok final) (finished : final.finish = .ok nodes)
    (outside : ∀ node ∈ nodes, reading.offset ≤ node.span.start ∨ node.span.stop ≤ reading.offset) :
    reading.stack = [] ∧ ∃ later, nodes = reading.done.reverse ++ later ∧
      (∀ node ∈ reading.done, node.span.start < reading.offset) ∧
      ∀ node ∈ later, reading.offset ≤ node.span.start := by
  obtain ⟨closed, rfl⟩ := finish_ok finished
  have empty : reading.stack = [] := by
    cases last : reading.stack.getLast? with
    | none => exact List.getLast?_eq_none_iff.mp last
    | some pending =>
        have before := begun.pending pending (List.mem_of_getLast? last)
        have initially : Holds reading.offset pending.start reading :=
          ⟨.inl (by rw [last]; rfl), Nat.le_refl _⟩
        rcases (steps_keep step_holds initially read).outermost with isOpen | ⟨node, member, starts, stops⟩
        · simp [closed] at isOpen
        · rcases outside node (List.mem_reverse.mpr member) with behind | ahead <;> omega
  have initially : Since reading.offset reading.done reading :=
    ⟨⟨[], rfl, fun _ member => nomatch member⟩, fun _ member => by simp [empty] at member, Nat.le_refl _⟩
  obtain ⟨later, isDone, begins⟩ := (steps_keep step_since initially read).finished
  refine ⟨empty, later.reverse, by rw [isDone, List.reverse_append], begun.finished, fun node member => ?_⟩
  exact begins node (List.mem_reverse.mp member)

end Reader.Reading

end Exemplar
