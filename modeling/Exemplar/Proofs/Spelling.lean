import Exemplar.Proofs.TopLevel

/-!
# Rows of lexemes that spell nodes

A row of lexemes spells a node, with its spans, when the row begins at a given byte: an atom by one lexeme, a quotation
by a quote mark before the row of what is quoted, a group by its brackets around the rows of its items, with comments
and blanks between them. Reading finds the nodes that are spelled.
-/

namespace Exemplar

namespace Lexeme

def width (row : List Lexeme) : Nat := Text.byteLength (texts row)

@[simp] theorem width_nil : width [] = 0 := rfl

@[simp] theorem width_append (left right : List Lexeme) : width (left ++ right) = width left + width right := by
  simp [width]

@[simp] theorem width_cons (lexeme : Lexeme) (rest : List Lexeme) :
    width (lexeme :: rest) = Text.byteLength lexeme.text + width rest := by
  simp [width]

theorem blank_concat {gap : List Lexeme} (blank : ∀ lexeme ∈ gap, lexeme.isTrivia = true) {lexeme : Lexeme}
    (trivia : lexeme.isTrivia = true) : ∀ other ∈ gap ++ [lexeme], other.isTrivia = true := by
  intro other member
  rcases List.mem_append.mp member with old | new
  · exact blank other old
  · rw [List.mem_singleton.mp new]
    exact trivia

end Lexeme

open Lexeme

namespace Node

mutual

/-- The row spells the node when it begins at the byte `start`. -/
inductive Spelled : (node : Node) → (start : Nat) → (row : List Lexeme) → Prop where
  | atom {start : Nat} {lexeme : Lexeme} {a : Atom} (spelled : lexeme.atom? = some a) :
      Spelled (.atom ⟨start, start + Text.byteLength lexeme.text⟩ a) start [lexeme]
  | quote {start : Nat} {gap row : List Lexeme} {inner : Node} (blank : ∀ lexeme ∈ gap, lexeme.isTrivia = true)
      (spelled : Spelled inner (start + 1 + width gap) row) :
      Spelled (.quote ⟨start, inner.span.stop⟩ inner) start (mark '\'' :: (gap ++ row))
  | group {start : Nat} {row : List Lexeme} {items : List Node} (bracket : Bracket)
      (spelled : AllSpelled items (start + 1) row) :
      Spelled (.group ⟨start, start + 1 + width row + 1⟩ bracket items) start
        (mark bracket.opening :: (row ++ [mark bracket.closing]))

/-- The row spells the nodes in order, with comments and blanks around them. -/
inductive AllSpelled : (nodes : List Node) → (start : Nat) → (row : List Lexeme) → Prop where
  | nil {start : Nat} {gap : List Lexeme} (blank : ∀ lexeme ∈ gap, lexeme.isTrivia = true) : AllSpelled [] start gap
  | cons {node : Node} {nodes : List Node} {start : Nat} {gap own row : List Lexeme}
      (blank : ∀ lexeme ∈ gap, lexeme.isTrivia = true) (first : Spelled node (start + width gap) own)
      (later : AllSpelled nodes (start + width gap + width own) row) :
      AllSpelled (node :: nodes) start (gap ++ (own ++ row))

end

theorem Spelled.span {node : Node} {start : Nat} {row : List Lexeme} (spelled : node.Spelled start row) :
    node.span = ⟨start, start + width row⟩ := by
  cases spelled with
  | atom spelled => simp [Node.span]
  | quote blank spelled =>
      rw [Node.span, spelled.span]
      simp [Nat.add_assoc]
  | group bracket spelled => simp [Node.span, Nat.add_assoc]

namespace AllSpelled

theorem nothing (start : Nat) : AllSpelled [] start [] := .nil (by simp)

theorem skip {nodes : List Node} {start : Nat} {row : List Lexeme} (spelled : AllSpelled nodes start row)
    {lexeme : Lexeme} (trivia : lexeme.isTrivia = true) : AllSpelled nodes start (row ++ [lexeme]) := by
  cases spelled with
  | nil blank => exact .nil (blank_concat blank trivia)
  | cons blank first later =>
      rw [List.append_assoc, List.append_assoc]
      exact .cons blank first (later.skip trivia)

theorem concat {nodes : List Node} {node : Node} {start middle : Nat} {row own : List Lexeme}
    (spelled : AllSpelled nodes start row) (behind : start + width row = middle) (last : node.Spelled middle own) :
    AllSpelled (nodes ++ [node]) start (row ++ own) := by
  cases spelled with
  | nil blank =>
      rw [← behind] at last
      have whole := cons blank last (nothing _)
      rwa [List.append_nil] at whole
  | cons blank first later =>
      rw [List.append_assoc, List.append_assoc]
      exact .cons blank first (later.concat (by simpa [Nat.add_assoc] using behind) last)

end AllSpelled

end Node

/-! ## What is read is spelled -/

namespace Reader

/-- The row has been read: it spells what is finished outside of everything, and from the mark of each group or
quotation that is open on what has been read in it. -/
inductive Pending.Spelled : (stack : List Pending) → (done : List Node) → (row : List Lexeme) → Prop where
  | outside {done : List Node} {row : List Lexeme} (spelled : Node.AllSpelled done.reverse 0 row) : Spelled [] done row
  | group {stack : List Pending} {done items : List Node} {before row : List Lexeme} (bracket : Bracket)
      (outer : Spelled stack done before) (spelled : Node.AllSpelled items.reverse (width before + 1) row) :
      Spelled (⟨.bracket bracket, width before, items⟩ :: stack) done (before ++ mark bracket.opening :: row)
  | quote {stack : List Pending} {done items : List Node} {before gap : List Lexeme} (outer : Spelled stack done before)
      (blank : ∀ lexeme ∈ gap, lexeme.isTrivia = true) :
      Spelled (⟨.quote, width before, items⟩ :: stack) done (before ++ mark '\'' :: gap)

namespace Pending.Spelled

variable {stack : List Pending} {done : List Node} {row : List Lexeme}

theorem skip (spelled : Spelled stack done row) {lexeme : Lexeme} (trivia : lexeme.isTrivia = true) :
    Spelled stack done (row ++ [lexeme]) := by
  cases spelled with
  | outside spelled => exact .outside (spelled.skip trivia)
  | group bracket outer spelled =>
      rw [List.append_assoc, List.cons_append]
      exact .group bracket outer (spelled.skip trivia)
  | quote outer blank =>
      rw [List.append_assoc, List.cons_append]
      exact .quote outer (blank_concat blank trivia)

/-- A node whose row comes next is placed together with the quotations it finishes. -/
theorem place (spelled : Spelled stack done row) {node : Node} {own : List Lexeme}
    (next : node.Spelled (width row) own) :
    Spelled (Reading.place node done stack).1 (Reading.place node done stack).2 (row ++ own) := by
  induction spelled generalizing node own with
  | outside spelled =>
      refine .outside ?_
      rw [Reading.place, List.reverse_cons]
      exact spelled.concat (Nat.zero_add _) next
  | group bracket outer spelled =>
      rw [List.append_assoc, List.cons_append]
      refine .group bracket outer ?_
      rw [List.reverse_cons]
      exact spelled.concat (by simp [Nat.add_assoc]) next
  | quote outer blank ih =>
      -- The quotation is finished too: its mark and the gap move from what has been read to the row of the node.
      rw [List.append_assoc, List.cons_append]
      refine ih (.quote blank ?_)
      simpa [Nat.add_assoc] using next

end Pending.Spelled

namespace Reading

theorem step_spelled {reading next : Reading} {lexeme : Lexeme} {row : List Lexeme}
    (spelled : Pending.Spelled reading.stack reading.done row) (here : reading.offset = width row)
    (read : reading.step lexeme = .ok next) : Pending.Spelled next.stack next.done (row ++ [lexeme]) := by
  rcases step_ok read with ⟨trivia, rfl⟩ | ⟨a, isAtom, rfl⟩ | ⟨rfl, rfl⟩ | ⟨bracket, rfl, rfl⟩ |
    ⟨bracket, rfl, start, items, rest, isOpen, rfl⟩
  · exact spelled.skip trivia
  · rw [here]
    exact spelled.place (.atom isAtom)
  · rw [descend, here]
    exact .quote spelled (by simp)
  · rw [descend, here]
    exact .group bracket spelled (.nothing _)
  · rw [isOpen] at spelled
    cases spelled with
    | @group _ _ _ before row _ outer spelled =>
        have stop : width before + 1 + width row = reading.offset := by
          rw [here]
          simp [Nat.add_assoc]
        have placed := outer.place (Node.Spelled.group bracket spelled)
        rw [stop] at placed
        rwa [List.append_assoc, List.cons_append]

theorem steps_spelled {reading next : Reading} {row lexemes : List Lexeme}
    (spelled : Pending.Spelled reading.stack reading.done row) (here : reading.offset = width row)
    (read : reading.steps lexemes = .ok next) : Pending.Spelled next.stack next.done (row ++ lexemes) := by
  induction lexemes generalizing reading row with
  | nil =>
      cases read
      rwa [List.append_nil]
  | cons lexeme rest ih =>
      obtain ⟨middle, first, later⟩ := steps_cons_ok read
      have whole := ih (step_spelled spelled here first) (by rw [step_offset first, here]; simp) later
      rwa [List.append_assoc, List.singleton_append] at whole

theorem allSpelled_of_finish {final : Reading} {lexemes : List Lexeme} {nodes : List Node}
    (stepped : initial.steps lexemes = .ok final) (finished : final.finish = .ok nodes) :
    Node.AllSpelled nodes 0 lexemes := by
  have initially : Pending.Spelled [] [] [] := .outside (.nothing 0)
  have spelled := steps_spelled initially rfl stepped
  obtain ⟨empty, rfl⟩ := finish_ok finished
  rw [empty] at spelled
  cases spelled with
  | outside spelled => exact spelled

end Reading

end Reader

/-- The lexemes of a program spell its nodes. -/
theorem Node.allSpelled_of_read {text : List Char} {nodes : List Node}
    (read : Node.read (String.ofList text) = .ok nodes) : AllSpelled nodes 0 (Lexeme.all text) := by
  obtain ⟨final, stepped, finished⟩ := Node.steps_of_read read
  exact Reader.Reading.allSpelled_of_finish stepped finished

/-! ## What is spelled is read -/

namespace Reader.Reading

variable (offset : Nat) (stack : List Pending) (done : List Node)

theorem step_atom {lexeme : Lexeme} {a : Atom} (spelled : lexeme.atom? = some a) :
    step ⟨offset, stack, done⟩ lexeme = .ok (push ⟨offset, stack, done⟩
      (.atom ⟨offset, offset + Text.byteLength lexeme.text⟩ a) (offset + Text.byteLength lexeme.text)) := by
  cases lexeme with
  | string body => cases spelled; rfl
  | word characters =>
      have isWord : Atom.ofWord? characters = some a := spelled
      simp only [step, isWord]
  | _ => cases spelled

theorem step_opening (bracket : Bracket) :
    step ⟨offset, stack, done⟩ (mark bracket.opening) =
      .ok ⟨offset + 1, ⟨.bracket bracket, offset, []⟩ :: stack, done⟩ := by
  cases bracket <;> rfl

theorem step_closing (bracket : Bracket) (start : Nat) (items : List Node) :
    step ⟨offset, ⟨.bracket bracket, start, items⟩ :: stack, done⟩ (mark bracket.closing) =
      .ok (push ⟨offset, stack, done⟩ (.group ⟨start, offset + 1⟩ bracket items.reverse) (offset + 1)) := by
  cases bracket <;> rfl

theorem steps_cons {reading next : Reading} {lexeme : Lexeme} (first : reading.step lexeme = .ok next)
    (rest : List Lexeme) : reading.steps (lexeme :: rest) = next.steps rest := by
  rw [steps, first]
  rfl

theorem steps_gap {gap : List Lexeme} (blank : ∀ lexeme ∈ gap, lexeme.isTrivia = true) :
    steps ⟨offset, stack, done⟩ gap = .ok ⟨offset + width gap, stack, done⟩ := steps_trivia _ blank

theorem steps_append_ok {reading next : Reading} {left : List Lexeme} (first : reading.steps left = .ok next)
    (right : List Lexeme) : reading.steps (left ++ right) = next.steps right := by
  rw [steps_append, first]
  rfl

end Reader.Reading

open Reader in
mutual

theorem Node.Spelled.steps {node : Node} {start : Nat} {row : List Lexeme} (spelled : node.Spelled start row)
    (stack : List Pending) (done : List Node) :
    Reading.steps ⟨start, stack, done⟩ row = .ok (Reading.push ⟨start, stack, done⟩ node (start + width row)) := by
  cases spelled with
  | atom spelled =>
      rw [Reading.steps_cons (Reading.step_atom start stack done spelled), width_cons, width_nil]
      rfl
  | @quote _ gap row inner blank spelled =>
      have opened : Reading.step ⟨start, stack, done⟩ (mark '\'') =
        .ok ⟨start + 1, ⟨.quote, start, []⟩ :: stack, done⟩ := rfl
      have stop : start + 1 + width gap + width row = start + width (mark '\'' :: (gap ++ row)) := by
        simp [Nat.add_assoc]
      rw [Reading.steps_cons opened, Reading.steps_append_ok (Reading.steps_gap _ _ _ blank), ← stop]
      exact spelled.steps (⟨.quote, start, []⟩ :: stack) done
  | @group _ row items bracket spelled =>
      have stop : start + 1 + width row + 1 =
          start + width (mark bracket.opening :: (row ++ [mark bracket.closing])) := by
        simp [Nat.add_assoc]
      rw [Reading.steps_cons (Reading.step_opening start stack done bracket),
        Reading.steps_append_ok (spelled.steps bracket start [] stack done),
        Reading.steps_cons (Reading.step_closing _ stack done bracket start _), List.append_nil, List.reverse_reverse,
        ← stop]
      rfl

theorem Node.AllSpelled.steps {nodes : List Node} {start : Nat} {row : List Lexeme}
    (spelled : Node.AllSpelled nodes start row) (bracket : Bracket) (opened : Nat) (items : List Node)
    (stack : List Pending) (done : List Node) :
    Reading.steps ⟨start, ⟨.bracket bracket, opened, items⟩ :: stack, done⟩ row =
      .ok ⟨start + width row, ⟨.bracket bracket, opened, nodes.reverse ++ items⟩ :: stack, done⟩ := by
  cases spelled with
  | nil blank => exact Reading.steps_gap _ _ _ blank
  | @cons node nodes _ gap own row blank first later =>
      have stop : start + width gap + width own + width row = start + width (gap ++ (own ++ row)) := by
        simp [Nat.add_assoc]
      rw [Reading.steps_append_ok (Reading.steps_gap _ _ _ blank), Reading.steps_append_ok (first.steps _ done),
        List.reverse_cons, List.append_assoc, ← stop]
      exact later.steps bracket opened (node :: items) stack done

end

end Exemplar
