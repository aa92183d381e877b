import Exemplar.Proofs.NodeSpans

/-!
# Where a text goes wrong

Reading stops at the first lexeme that no program can have there, or at the end when something is still open. What
stands before that place is the beginning of a program: a line break, an atom and the brackets that are still missing
complete it. A text that reads to its end is refused for its map literals alone, and the one that is named is the first
to close of those with an odd number of forms.
-/

namespace Exemplar

open Lexeme

namespace Reader

/-- The text follows the grammar of programs, whatever its map literals hold: its lexemes spell nodes. -/
def Accepts (text : List Char) : Prop := ∃ nodes, Node.AllSpelled nodes 0 (Lexeme.all text)

/-- The text is the beginning of one that follows the grammar. -/
def Viable (text : List Char) : Prop := ∃ rest, Accepts (text ++ rest)

end Reader

/-! ## What is spelled is read to the end -/

theorem Node.AllSpelled.steps_outside {nodes : List Node} {start : Nat} {row : List Lexeme}
    (spelled : Node.AllSpelled nodes start row) (done : List Node) :
    Reader.Reading.steps ⟨start, [], done⟩ row = .ok ⟨start + width row, [], nodes.reverse ++ done⟩ := by
  cases spelled with
  | nil blank => exact Reader.Reading.steps_gap _ _ _ blank
  | @cons node nodes _ gap own row blank first later =>
      have stop : start + width gap + width own + width row = start + width (gap ++ (own ++ row)) := by
        simp [Nat.add_assoc]
      rw [Reader.Reading.steps_append_ok (Reader.Reading.steps_gap _ _ _ blank),
        Reader.Reading.steps_append_ok (first.steps _ done), List.reverse_cons, List.append_assoc, ← stop]
      exact later.steps_outside (node :: done)

namespace Reader

/-- Reading finds the nodes that a text spells, and no others. -/
theorem nodes_ok_iff {text : List Char} {nodes : List Node} :
    Reader.nodes text = .ok nodes ↔ Node.AllSpelled nodes 0 (Lexeme.all text) := by
  unfold Reader.nodes
  constructor
  · intro read
    cases stepped : Reading.initial.steps (Lexeme.all text) with
    | error fault => rw [stepped] at read; cases read
    | ok final =>
        rw [stepped] at read
        exact Reading.allSpelled_of_finish stepped read
  · intro spelled
    have stepped : Reading.initial.steps (Lexeme.all text) = .ok _ := spelled.steps_outside []
    rw [stepped, List.append_nil]
    simp [bind, Except.bind, Reading.finish]

/-! ## The place of a fault -/

namespace Reading

theorem close_fault {reading : Reading} {bracket : Bracket} {next : Nat} {fault : SyntaxFault}
    (failed : reading.close bracket next = .error fault) : fault = reading.fault := by
  unfold close at failed
  split at failed
  · split at failed
    · cases failed
    · cases failed
      rfl
  · cases failed
    rfl

theorem step_fault {reading : Reading} {lexeme : Lexeme} {fault : SyntaxFault}
    (failed : reading.step lexeme = .error fault) : fault = reading.fault := by
  cases lexeme with
  | block body => cases failed
  | line body => cases failed
  | string body => cases failed
  | word characters =>
      unfold step at failed
      dsimp only at failed
      split at failed
      · cases failed
      · cases failed
        rfl
  | mark c =>
      unfold step at failed
      dsimp only at failed
      split at failed
      · cases failed
      · split at failed
        · cases failed
        · split at failed
          · cases failed
          · split at failed
            · exact close_fault failed
            · cases failed
              rfl

/-- Lexemes that cannot all be read are read up to one that cannot come next. -/
theorem steps_fault {reading : Reading} {lexemes : List Lexeme} {fault : SyntaxFault}
    (failed : reading.steps lexemes = .error fault) :
    ∃ before lexeme after middle, lexemes = before ++ lexeme :: after ∧ reading.steps before = .ok middle ∧
      middle.step lexeme = .error fault := by
  induction lexemes generalizing reading with
  | nil => cases failed
  | cons lexeme rest ih =>
      cases first : reading.step lexeme with
      | error other =>
          simp only [steps, first, bind, Except.bind, Except.error.injEq] at failed
          exact ⟨[], lexeme, rest, reading, rfl, rfl, by rw [first, failed]⟩
      | ok next =>
          rw [steps_cons first] at failed
          obtain ⟨before, stopping, after, middle, rfl, read, stopped⟩ := ih failed
          exact ⟨lexeme :: before, stopping, after, middle, rfl, by rw [steps_cons first, read], stopped⟩

end Reading

/-- A text that cannot be read is read up to the place of its fault. -/
theorem nodes_fault {text : List Char} {fault : SyntaxFault} (failed : Reader.nodes text = .error fault) :
    ∃ before after middle, Lexeme.all text = before ++ after ∧ Reading.initial.steps before = .ok middle ∧
      fault = middle.fault ∧ ∀ lexeme ∈ after.head?, middle.step lexeme = .error fault := by
  unfold Reader.nodes at failed
  cases stepped : Reading.initial.steps (Lexeme.all text) with
  | error other =>
      rw [stepped] at failed
      obtain rfl : other = fault := Except.error.inj failed
      obtain ⟨before, lexeme, after, middle, whole, read, stopped⟩ := Reading.steps_fault stepped
      refine ⟨before, lexeme :: after, middle, whole, read, Reading.step_fault stopped, fun next isNext => ?_⟩
      cases isNext
      exact stopped
  | ok final =>
      rw [stepped] at failed
      have unfinished : final.finish = .error fault := failed
      refine ⟨Lexeme.all text, [], final, by simp, stepped, ?_, by simp⟩
      unfold Reading.finish at unfinished
      split at unfinished
      · cases unfinished
      · exact (Except.error.inj unfinished).symm

/-! ## Completing what has been read -/

/-- The brackets that close what is open. Quotations end with what they quote. -/
def Pending.closers : List Pending → List Lexeme
  | [] => []
  | ⟨.quote, _, _⟩ :: rest => closers rest
  | ⟨.bracket bracket, _, _⟩ :: rest => mark bracket.closing :: closers rest

/-- A line break, an atom and the missing brackets. -/
def Pending.completion (stack : List Pending) : List Lexeme := mark '\n' :: word "nil".toList :: closers stack

theorem Pending.leads_closers (stack : List Pending) :
    Leads [] (closers stack) ∧ ∀ c ∈ (texts (closers stack)).head?, isSymbolChar c = false := by
  fun_induction closers stack with
  | case1 => simp [Leads]
  | case2 start items rest ih => exact ih
  | case3 bracket start items rest ih =>
      refine ⟨⟨⟨bracket.closing, _, rfl, by cases bracket <;> rfl⟩, ih.1⟩, fun c isHead => ?_⟩
      cases isHead
      cases bracket <;> decide

theorem Pending.leads_completion (stack : List Pending) : Leads [] (completion stack) := by
  obtain ⟨leads, notSymbol⟩ := leads_closers stack
  refine ⟨⟨'\n', _, rfl, rfl⟩, opens_word.mpr ⟨by decide, List.all_eq_true.mp rfl, ?_⟩, leads⟩
  rwa [List.append_nil]

namespace Reading

/-- Behind a finished node the missing brackets close everything. -/
theorem steps_closers (stack : List Pending) (node : Node) (offset : Nat) (done : List Node) :
    ∃ final, steps (push ⟨0, stack, done⟩ node offset) (Pending.closers stack) = .ok final ∧ final.stack = [] := by
  induction stack generalizing node offset with
  | nil => exact ⟨_, rfl, rfl⟩
  | cons pending rest ih =>
      obtain ⟨opener, start, items⟩ := pending
      cases opener with
      | quote => exact ih (.quote ⟨start, node.span.stop⟩ node) offset
      | bracket bracket =>
          obtain ⟨final, closed, empty⟩ :=
            ih (.group ⟨start, offset + 1⟩ bracket (node :: items).reverse) (offset + 1)
          refine ⟨final, ?_, empty⟩
          rw [push, place, Pending.closers, steps_cons (step_closing _ _ _ _ _ _)]
          exact closed

theorem steps_completion (reading : Reading) :
    ∃ final, reading.steps (Pending.completion reading.stack) = .ok final ∧ final.stack = [] := by
  obtain ⟨offset, stack, done⟩ := reading
  have lineBreak : step ⟨offset, stack, done⟩ (mark '\n') = .ok ⟨offset + 1, stack, done⟩ := rfl
  have isAtom : (word "nil".toList).atom? = some .nil := rfl
  obtain ⟨final, closed, empty⟩ :=
    steps_closers stack (.atom ⟨offset + 1, offset + 1 + 3⟩ .nil) (offset + 1 + 3) done
  refine ⟨final, ?_, empty⟩
  rw [Pending.completion, steps_cons lineBreak, steps_cons (step_atom (offset + 1) stack done isAtom)]
  exact closed

/-- The lexemes that have been read begin a text that follows the grammar. -/
theorem viable_of_steps {text : List Char} {before after : List Lexeme} {middle : Reading}
    (whole : Lexeme.all text = before ++ after) (read : initial.steps before = .ok middle) : Viable (texts before) := by
  have leads := leads_all text
  rw [whole] at leads
  have ends : ∀ lexeme ∈ before.getLast?, lexeme.EndsBefore (texts (Pending.completion middle.stack)) :=
    fun lexeme _ => lexeme.endsBefore_of_break (by simp [Pending.completion, Lexeme.text, isLineBreak])
  have lexed := all_of_leads ((leads_append.mp leads).1.change (steps_not_stray read) ends)
  have rest := all_of_leads (Pending.leads_completion middle.stack)
  rw [List.append_nil, all_nil, List.append_nil] at rest
  obtain ⟨final, completed, empty⟩ := steps_completion middle
  have stepped : initial.steps (before ++ Pending.completion middle.stack) = .ok final := by
    rw [steps_append_ok read, completed]
  refine ⟨texts (Pending.completion middle.stack), final.done.reverse, ?_⟩
  rw [lexed, rest]
  exact allSpelled_of_finish stepped (by simp [finish, empty])

end Reading

end Reader

/-! ## Map literals with an odd number of forms -/

namespace Node

/-- Whether a node is a map literal with an odd number of forms. -/
def isOddMap : Node → Bool
  | group _ bracket items => bracket == .curly && items.length % 2 == 1
  | _ => false

/-- The span is that of the odd map literal that closes first among some nodes. -/
def FirstOdd (span : Span) (nodes : List Node) : Prop :=
  (∃ first ∈ nodes, first.isOddMap = true ∧ first.span = span) ∧
    ∀ other ∈ nodes, other.isOddMap = true → other.span = span ∨ span.stop < other.span.stop

theorem not_odd_of_isEven {node : Node} (even : node.form.isEven = true) : node.isOddMap = false := by
  cases node with
  | group span bracket items =>
      rw [form, Form.isEven, Bool.and_eq_true, forms_eq_map, List.length_map] at even
      simpa [isOddMap, imp_iff_not_or] using even.2
  | _ => rfl

theorem not_odd_of_none {node part : Node} (none : node.oddMap? = none) (member : part ∈ node.parts) :
    part.isOddMap = false := not_odd_of_isEven (isEven_of_mem_parts ((oddMap?_eq_none node).mp none) member)

theorem all_not_odd_of_none {nodes : List Node} {part : Node} (none : oddMaps? nodes = none)
    (member : part ∈ allParts nodes) : part.isOddMap = false :=
  not_odd_of_isEven (isEven_of_mem_allParts ((oddMaps?_eq_none nodes).mp none) member)

theorem SpelledIn.bounds {node : Node} {start : Nat} {row : List Lexeme} (spelled : node.SpelledIn start row) :
    start ≤ node.span.start ∧ node.span.start < node.span.stop ∧ node.span.stop ≤ start + width row := by
  obtain ⟨before, own, after, rfl, spelled⟩ := spelled
  have positive := spelled.start_lt_stop
  rw [spelled.span] at positive ⊢
  simp only [width_append] at positive ⊢
  omega

mutual

theorem Spelled.firstOdd {node : Node} {start : Nat} {row : List Lexeme} {span : Span}
    (spelled : node.Spelled start row) (odd : node.oddMap? = some span) : FirstOdd span node.parts := by
  cases spelled with
  | atom isAtom => cases odd
  | @quote _ gap row inner blank inside =>
      obtain ⟨⟨first, member, isOdd, same⟩, least⟩ := inside.firstOdd odd
      refine ⟨⟨first, List.mem_cons_of_mem _ member, isOdd, same⟩, fun other isPart otherOdd => ?_⟩
      rcases List.mem_cons.mp isPart with rfl | within
      · cases otherOdd
      · exact least other within otherOdd
  | @group _ row items bracket inside =>
      rw [oddMap?] at odd
      cases found : oddMaps? items with
      | some within =>
          rw [found] at odd
          obtain rfl : within = span := Option.some.inj odd
          obtain ⟨⟨first, member, isOdd, same⟩, least⟩ := inside.firstOdd found
          -- What is inside closes before the group does.
          have closed := (inside.part member).bounds.2.2
          rw [same] at closed
          refine ⟨⟨first, List.mem_cons_of_mem _ member, isOdd, same⟩, fun other isPart otherOdd => ?_⟩
          rcases List.mem_cons.mp isPart with rfl | inner
          · exact .inr (Nat.lt_succ_of_le closed)
          · exact least other inner otherOdd
      | none =>
          rw [found, Option.none_or] at odd
          split at odd
          · next isOdd =>
              obtain rfl := Option.some.inj odd
              refine ⟨⟨_, List.mem_cons_self, by simp [isOddMap, isOdd], rfl⟩, fun other isPart otherOdd => ?_⟩
              rcases List.mem_cons.mp isPart with rfl | inner
              · exact .inl rfl
              · rw [all_not_odd_of_none found inner] at otherOdd
                cases otherOdd
          · cases odd

theorem AllSpelled.firstOdd {nodes : List Node} {start : Nat} {row : List Lexeme} {span : Span}
    (spelled : AllSpelled nodes start row) (odd : oddMaps? nodes = some span) : FirstOdd span (allParts nodes) := by
  cases spelled with
  | nil blank => cases odd
  | @cons node nodes _ gap own row blank here later =>
      rw [oddMaps?] at odd
      cases found : node.oddMap? with
      | some within =>
          rw [found] at odd
          obtain rfl : within = span := Option.some.inj odd
          obtain ⟨⟨first, member, isOdd, same⟩, least⟩ := here.firstOdd found
          have closed := (here.part member).bounds.2.2
          rw [same] at closed
          refine ⟨⟨first, List.mem_append_left _ member, isOdd, same⟩, fun other isPart otherOdd => ?_⟩
          rcases List.mem_append.mp isPart with inside | behind
          · exact least other inside otherOdd
          · -- A later node opens behind the end of this one.
            have opened := (later.part behind).bounds
            exact .inr (by omega)
      | none =>
          rw [found, Option.none_or] at odd
          obtain ⟨⟨first, member, isOdd, same⟩, least⟩ := later.firstOdd odd
          refine ⟨⟨first, List.mem_append_right _ member, isOdd, same⟩, fun other isPart otherOdd => ?_⟩
          rcases List.mem_append.mp isPart with inside | behind
          · rw [not_odd_of_none found inside] at otherOdd
            cases otherOdd
          · exact least other behind otherOdd

end

theorem read_error_iff {text : String} {fault : SyntaxFault} :
    Node.read text = .error fault ↔ Reader.nodes text.toList = .error fault ∨
      ∃ nodes span, Reader.nodes text.toList = .ok nodes ∧ oddMaps? nodes = some span ∧ fault = .oddMap span := by
  unfold Node.read
  cases Reader.nodes text.toList with
  | error other => simp [bind, Except.bind]
  | ok nodes => cases odd : oddMaps? nodes <;> simp [bind, Except.bind, odd, eq_comm]

end Node

/-! ## Faults of texts -/

namespace Reader

/-- The fault of a text that does not follow the grammar is a place between two characters. What stands before it begins
a text that follows the grammar, and with the lexeme behind it nothing does. -/
theorem exists_place {text : List Char} {fault : SyntaxFault} (failed : Reader.nodes text = .error fault) :
    ∃ front back, text = front ++ back ∧ fault.span = ⟨Text.byteLength front, Text.byteLength front⟩ ∧ Viable front ∧
      ∀ lexeme ∈ (Lexeme.all back).head?, ∀ more nodes,
        ¬ Node.AllSpelled nodes 0 (Lexeme.all front ++ lexeme :: more) := by
  obtain ⟨before, after, middle, whole, read, rfl, stuck⟩ := nodes_fault failed
  have leads := leads_all text
  rw [whole] at leads
  obtain ⟨leadsFront, leadsBack⟩ := leads_append.mp leads
  have lexedFront := all_of_leads
    (leadsFront.change (Reading.steps_not_stray read) fun lexeme _ => lexeme.endsBefore_nil)
  have lexedBack := all_of_leads leadsBack
  rw [List.append_nil, all_nil, List.append_nil] at lexedFront lexedBack
  refine ⟨texts before, texts after, ?_, ?_, Reading.viable_of_steps whole read, ?_⟩
  · rw [← texts_append, ← whole, texts_all]
  · have place := Reading.steps_offset read
    rw [Reading.initial, Nat.zero_add] at place
    rw [Reading.fault, SyntaxFault.span, place]
  · intro lexeme isNext more nodes spelled
    rw [lexedBack] at isNext
    rw [lexedFront] at spelled
    have accepted := spelled.steps_outside []
    have stopped := stuck lexeme isNext
    rw [show (⟨0, [], []⟩ : Reading) = Reading.initial from rfl, Reading.steps_append_ok read, Reading.steps,
      stopped] at accepted
    cases accepted

/-- A text that is refused at a place between two characters does not follow the grammar. The place is a boundary of
characters, the text before it begins a text that follows the grammar, and nothing that follows the grammar has the
lexeme behind it next. A text that follows the grammar is refused exactly when it holds a map literal with an odd number
of forms, and the span that is given is that of the first one to close. -/
theorem faults_located (text : String) :
    (∀ fault k, Node.read text = .error fault → fault.span = ⟨k, k⟩ →
      ¬ Accepts text.toList ∧ String.Pos.Raw.IsValid text ⟨k⟩ ∧
      ∃ front back, text.toList = front ++ back ∧ Text.byteLength front = k ∧ Viable front ∧
        ∀ lexeme ∈ (Lexeme.all back).head?, ∀ more nodes,
          ¬ Node.AllSpelled nodes 0 (Lexeme.all front ++ lexeme :: more)) ∧
    ∀ nodes, Node.AllSpelled nodes 0 (Lexeme.all text.toList) →
      ((∃ fault, Node.read text = .error fault) ↔ ∃ part ∈ Node.allParts nodes, part.isOddMap = true) ∧
      ∀ fault, Node.read text = .error fault → Node.FirstOdd fault.span (Node.allParts nodes) := by
  constructor
  · intro fault k refused zero
    rcases Node.read_error_iff.mp refused with failed | ⟨nodes, span, found, odd, rfl⟩
    · obtain ⟨front, back, whole, place, viable, unusable⟩ := exists_place failed
      obtain rfl : Text.byteLength front = k := congrArg Span.start (place.symm.trans zero)
      refine ⟨fun ⟨nodes, spelled⟩ => ?_, ?_, front, back, whole, rfl, viable, unusable⟩
      · rw [nodes_ok_iff.mpr spelled] at failed
        cases failed
      · refine String.Pos.Raw.isValid_iff_exists_append.mpr ⟨String.ofList front, String.ofList back, ?_, ?_⟩
        · rw [← String.ofList_append, ← whole, String.ofList_toList]
        · rw [String.rawEndPos, Text.utf8ByteSize_ofList]
    · -- A map literal is never empty of characters.
      have spelled := nodes_ok_iff.mp found
      obtain ⟨⟨first, member, -, same⟩, -⟩ := spelled.firstOdd odd
      have positive := (spelled.part member).bounds.2.1
      have empty : first.span = ⟨k, k⟩ := same.trans zero
      rw [empty] at positive
      exact absurd positive (Nat.lt_irrefl k)
  · intro nodes spelled
    have found := nodes_ok_iff.mpr spelled
    have refusal {fault : SyntaxFault} (refused : Node.read text = .error fault) :
        Node.FirstOdd fault.span (Node.allParts nodes) := by
      rcases Node.read_error_iff.mp refused with failed | ⟨others, span, again, odd, rfl⟩
      · rw [found] at failed
        cases failed
      · obtain rfl : nodes = others := Except.ok.inj (found.symm.trans again)
        exact spelled.firstOdd odd
    refine ⟨⟨fun ⟨fault, refused⟩ => ?_, fun ⟨part, member, isOdd⟩ => ?_⟩, fun fault refused => refusal refused⟩
    · obtain ⟨⟨first, member, isOdd, -⟩, -⟩ := refusal refused
      exact ⟨first, member, isOdd⟩
    · cases odd : Node.oddMaps? nodes with
      | some span => exact ⟨.oddMap span, Node.read_error_iff.mpr (.inr ⟨nodes, span, found, odd, rfl⟩)⟩
      | none =>
          rw [Node.all_not_odd_of_none odd member] at isOdd
          cases isOdd

/-- A bracket that closes another one behind a quotation and a character of two bytes, and two odd map literals, of
which the inner one closes first. -/
theorem faults_located_nested :
    (Node.read "[\"é\" '(a ]" = .error (.unexpected 10 true) ∧
      ∃ front back, "[\"é\" '(a ]".toList = front ++ back ∧ Text.byteLength front = 10 ∧ Viable front) ∧
    ∃ nodes, Node.AllSpelled nodes 0 (Lexeme.all "\x7ba \x7bb\x7d c\x7d".toList) ∧
      Node.read "\x7ba \x7bb\x7d c\x7d" = .error (.oddMap ⟨3, 6⟩) ∧ Node.FirstOdd ⟨3, 6⟩ (Node.allParts nodes) := by
  have refused : Node.read "[\"é\" '(a ]" = .error (.unexpected 10 true) := rfl
  obtain ⟨-, -, front, back, whole, place, viable, -⟩ := (faults_located "[\"é\" '(a ]").1 _ 10 refused rfl
  have found : Reader.nodes "\x7ba \x7bb\x7d c\x7d".toList =
      .ok [.group ⟨0, 9⟩ .curly [.atom ⟨1, 2⟩ (.symbol "a"), .group ⟨3, 6⟩ .curly [.atom ⟨4, 5⟩ (.symbol "b")],
        .atom ⟨7, 8⟩ (.symbol "c")]] := rfl
  have odd : Node.read "\x7ba \x7bb\x7d c\x7d" = .error (.oddMap ⟨3, 6⟩) := rfl
  have spelled := nodes_ok_iff.mp found
  exact ⟨⟨refused, front, back, whole, place, viable⟩, _, spelled, odd, ((faults_located _).2 _ spelled).2 _ odd⟩

end Reader

end Exemplar
