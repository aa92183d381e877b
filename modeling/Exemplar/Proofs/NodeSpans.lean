import Exemplar.Proofs.ExampleCode
import Exemplar.Proofs.Slices
import Exemplar.Proofs.Spelling

/-!
# Spans delimit their nodes

The items of a group stand in order between its brackets, and what is quoted ends where its quotation ends. The bytes
of a node, read on their own, are the node and nothing else, moved to the front.
-/

namespace Exemplar

open Lexeme

/-- The span `distance` bytes further on. -/
def Span.moved (distance : Nat) (span : Span) : Span := ⟨span.start + distance, span.stop + distance⟩

namespace Node

mutual

/-- A node and all nodes in it. -/
def parts : Node → List Node
  | atom span a => [atom span a]
  | group span bracket items => group span bracket items :: allParts items
  | quote span inner => quote span inner :: parts inner

def allParts : List Node → List Node
  | [] => []
  | item :: rest => parts item ++ allParts rest

end

mutual

/-- A node with all its spans moved. -/
def moved (distance : Nat) : Node → Node
  | atom span a => atom (span.moved distance) a
  | group span bracket items => group (span.moved distance) bracket (allMoved distance items)
  | quote span inner => quote (span.moved distance) (moved distance inner)

def allMoved (distance : Nat) : List Node → List Node
  | [] => []
  | item :: rest => moved distance item :: allMoved distance rest

end

theorem span_moved (distance : Nat) (node : Node) : (node.moved distance).span = node.span.moved distance := by
  cases node <;> rfl

mutual

theorem form_moved (distance : Nat) (node : Node) : (node.moved distance).form = node.form := by
  cases node with
  | atom span a => rfl
  | group span bracket items => rw [moved, form, form, forms_allMoved distance items]
  | quote span inner => rw [moved, form, form, form_moved distance inner]

theorem forms_allMoved (distance : Nat) (nodes : List Node) : forms (allMoved distance nodes) = forms nodes := by
  cases nodes with
  | nil => rfl
  | cons node rest => rw [allMoved, forms, forms, form_moved distance node, forms_allMoved distance rest]

end

mutual

theorem isEven_of_mem_parts {node part : Node} (even : node.form.isEven = true) (member : part ∈ node.parts) :
    part.form.isEven = true := by
  cases node with
  | atom span a =>
      rw [List.mem_singleton.mp member]
      exact even
  | group span bracket items =>
      rcases List.mem_cons.mp member with rfl | inside
      · exact even
      · rw [form, Form.isEven, Bool.and_eq_true] at even
        exact isEven_of_mem_allParts even.1 inside
  | quote span inner =>
      rcases List.mem_cons.mp member with rfl | inside
      · exact even
      · rw [form, Form.isEven] at even
        exact isEven_of_mem_parts even inside

theorem isEven_of_mem_allParts {nodes : List Node} {part : Node} (even : Form.areEven (forms nodes) = true)
    (member : part ∈ allParts nodes) : part.form.isEven = true := by
  cases nodes with
  | nil => cases member
  | cons node rest =>
      rw [forms, Form.areEven, Bool.and_eq_true] at even
      rcases List.mem_append.mp member with here | later
      · exact isEven_of_mem_parts even.1 here
      · exact isEven_of_mem_allParts even.2 later

end

/-! ## The rows of the parts -/

/-- A part of the row that begins at `start` spells the node. -/
def SpelledIn (node : Node) (start : Nat) (row : List Lexeme) : Prop :=
  ∃ before own after, row = before ++ (own ++ after) ∧ node.Spelled (start + width before) own

theorem Spelled.itself {node : Node} {start : Nat} {row : List Lexeme} (spelled : node.Spelled start row) :
    node.SpelledIn start row := ⟨[], row, [], by simp, spelled⟩

theorem SpelledIn.inside {node : Node} {start middle : Nat} {row whole : List Lexeme}
    (spelled : node.SpelledIn middle row) (left right : List Lexeme) (behind : start + width left = middle)
    (same : whole = left ++ (row ++ right)) : node.SpelledIn start whole := by
  obtain ⟨before, own, after, rfl, spelled⟩ := spelled
  refine ⟨left ++ before, own, after ++ right, by simp [same], ?_⟩
  rwa [width_append, ← Nat.add_assoc, behind]

mutual

theorem Spelled.part {node part : Node} {start : Nat} {row : List Lexeme} (spelled : node.Spelled start row)
    (member : part ∈ node.parts) : part.SpelledIn start row := by
  have itself := spelled.itself
  cases spelled with
  | atom spelled =>
      rw [List.mem_singleton.mp member]
      exact itself
  | @quote _ gap row inner blank spelled =>
      rcases List.mem_cons.mp member with rfl | inside
      · exact itself
      · exact (spelled.part inside).inside (mark '\'' :: gap) [] (by simp [Nat.add_assoc]) (by simp)
  | group bracket spelled =>
      rcases List.mem_cons.mp member with rfl | inside
      · exact itself
      · exact (spelled.part inside).inside [mark bracket.opening] [mark bracket.closing] (by simp) rfl

theorem AllSpelled.part {nodes : List Node} {part : Node} {start : Nat} {row : List Lexeme}
    (spelled : AllSpelled nodes start row) (member : part ∈ allParts nodes) : part.SpelledIn start row := by
  cases spelled with
  | nil blank => cases member
  | @cons node nodes _ gap own row blank first later =>
      rcases List.mem_append.mp member with here | behind
      · exact (first.part here).inside gap row rfl rfl
      · exact (later.part behind).inside (gap ++ own) [] (by simp [Nat.add_assoc]) (by simp)

end

/-! ## Moved rows -/

mutual

/-- The same row further to the front spells the node with its spans moved to the front. -/
theorem Spelled.unmoved {node : Node} {start here distance : Nat} {row : List Lexeme} (spelled : node.Spelled here row)
    (further : here = start + distance) : ∃ alone : Node, alone.Spelled start row ∧ alone.moved distance = node := by
  cases spelled with
  | @atom _ lexeme a spelled =>
      have stop : here + Text.byteLength lexeme.text = start + Text.byteLength lexeme.text + distance := by omega
      refine ⟨_, .atom spelled, ?_⟩
      rw [stop, further]
      rfl
  | @quote _ gap row inner blank spelled =>
      have inside : here + 1 + width gap = start + 1 + width gap + distance := by omega
      obtain ⟨alone, again, rfl⟩ := spelled.unmoved inside
      refine ⟨_, .quote blank again, ?_⟩
      rw [span_moved, further]
      rfl
  | @group _ row items bracket spelled =>
      have inside : here + 1 = start + 1 + distance := by omega
      have stop : here + 1 + width row + 1 = start + 1 + width row + 1 + distance := by omega
      obtain ⟨alone, again, rfl⟩ := spelled.unmoved inside
      refine ⟨_, .group bracket again, ?_⟩
      rw [stop, further]
      rfl

theorem AllSpelled.unmoved {nodes : List Node} {start here distance : Nat} {row : List Lexeme}
    (spelled : AllSpelled nodes here row) (further : here = start + distance) :
    ∃ alone : List Node, AllSpelled alone start row ∧ allMoved distance alone = nodes := by
  cases spelled with
  | nil blank => exact ⟨[], .nil blank, rfl⟩
  | @cons node nodes _ gap own row blank first later =>
      have inside : here + width gap = start + width gap + distance := by omega
      have behind : here + width gap + width own = start + width gap + width own + distance := by omega
      obtain ⟨alone, again, rfl⟩ := first.unmoved inside
      obtain ⟨others, rest, rfl⟩ := later.unmoved behind
      exact ⟨alone :: others, .cons blank again rest, rfl⟩

end

/-! ## Order -/

theorem Spelled.start_lt_stop {node : Node} {start : Nat} {row : List Lexeme} (spelled : node.Spelled start row) :
    node.span.start < node.span.stop := by
  have positive : 0 < width row := by
    cases spelled with
    | atom spelled => simpa using byteLength_pos (text_ne_nil_of_atom? spelled)
    | quote blank spelled => simp only [width_cons, byteLength_quote]; omega
    | group bracket spelled => simp only [width_cons, byteLength_opening]; omega
  rw [spelled.span]
  exact Nat.lt_add_of_pos_right positive

theorem AllSpelled.ordered {nodes : List Node} {start : Nat} {row : List Lexeme}
    (spelled : AllSpelled nodes start row) :
    nodes.Pairwise (fun first second => first.span.stop ≤ second.span.start) ∧
      ∀ node ∈ nodes, start ≤ node.span.start ∧ node.span.stop ≤ start + width row := by
  cases spelled with
  | nil blank => exact ⟨.nil, by simp⟩
  | @cons node nodes _ gap own row blank first later =>
      obtain ⟨ordered, bounds⟩ := later.ordered
      have span := first.span
      constructor
      · refine List.pairwise_cons.mpr ⟨fun other member => ?_, ordered⟩
        rw [span]
        exact (bounds other member).1
      · intro other member
        simp only [width_append]
        rcases List.mem_cons.mp member with rfl | behind
        · rw [span]
          simp only
          omega
        · have bound := bounds other behind
          omega

theorem Spelled.items_inside {span : Span} {bracket : Bracket} {items : List Node} {start : Nat} {row : List Lexeme}
    (spelled : (Node.group span bracket items).Spelled start row) :
    items.Pairwise (fun first second => first.span.stop ≤ second.span.start) ∧
      ∀ item ∈ items, span.start < item.span.start ∧ item.span.stop < span.stop := by
  cases spelled with
  | group _ inside =>
      obtain ⟨ordered, bounds⟩ := inside.ordered
      refine ⟨ordered, fun item member => ?_⟩
      have bound := bounds item member
      exact ⟨bound.1, Nat.lt_succ_of_le bound.2⟩

theorem Spelled.inner_inside {span : Span} {inner : Node} {start : Nat} {row : List Lexeme}
    (spelled : (Node.quote span inner).Spelled start row) :
    span.start < inner.span.start ∧ inner.span.stop = span.stop := by
  cases spelled with
  | quote blank inside =>
      rw [inside.span]
      exact ⟨by simp only; omega, rfl⟩

/-! ## Reading the bytes of a node -/

/-- A row that spells a node from the start of a text reads as that node. -/
theorem Spelled.read {node : Node} {row : List Lexeme} (spelled : node.Spelled 0 row) (lexed : all (texts row) = row)
    (even : node.form.isEven = true) : Node.read (String.ofList (texts row)) = .ok [node] := by
  have odd : oddMaps? [node] = none := by
    rw [oddMaps?_eq_none, forms, Form.areEven, even]
    rfl
  have stepped : Reader.Reading.initial.steps row = .ok ⟨0 + width row, [], [node]⟩ := spelled.steps [] []
  unfold Node.read Reader.nodes
  rw [String.toList_ofList, lexed]
  simp only [stepped, bind, Except.bind, Reader.Reading.finish, List.isEmpty_nil, if_true, List.reverse_singleton, odd]

end Node

namespace Lexeme

theorem endsBefore_nil (lexeme : Lexeme) : lexeme.EndsBefore [] := by
  cases lexeme <;> simp [EndsBefore]

/-- A piece of the lexemes of a text has no other lexemes when it stands alone. -/
theorem all_texts_of_infix {text : List Char} (closed : ∀ lexeme ∈ all text, lexeme.isStray = false)
    {before own after : List Lexeme} (whole : all text = before ++ (own ++ after)) : all (texts own) = own := by
  have leads := leads_all text
  rw [whole] at leads closed
  have ownLeads := (leads_append.mp (leads_append.mp leads).2).1
  have alone := ownLeads.change (fun lexeme member => closed lexeme (by simp [member]))
    fun lexeme _ => lexeme.endsBefore_nil
  simpa using all_of_leads alone

end Lexeme

namespace Node

/-- The bytes of a node of a program are the texts of lexemes that spell the node, and these read as it. -/
theorem exists_slice {text : List Char} {nodes : List Node} {node : Node} {before own after : List Lexeme}
    (read : Node.read (String.ofList text) = .ok nodes) (member : node ∈ allParts nodes)
    (whole : all text = before ++ (own ++ after)) (spelled : node.Spelled (width before) own) :
    ∃ slice alone, slice.toByteArray = (String.ofList text).toByteArray.extract node.span.start node.span.stop ∧
      Node.read slice = .ok [alone] ∧ alone.moved node.span.start = node := by
  have readForms : Form.read (String.ofList text) = .ok (forms nodes) := by
    rw [Form.read, read]
    rfl
  have even := isEven_of_mem_allParts (Form.read_ok_iff.mp readForms).2 member
  have lexed := all_texts_of_infix (Form.closed_of_read readForms) whole
  have same : text = texts before ++ (texts own ++ texts after) := by
    rw [← texts_append, ← texts_append, ← whole, texts_all]
  obtain ⟨alone, again, rfl⟩ := spelled.unmoved (Nat.zero_add _).symm
  rw [form_moved] at even
  refine ⟨String.ofList (texts own), alone, ?_, again.read lexed even, by rw [spelled.span]⟩
  rw [String.toByteArray_ofList, String.toByteArray_ofList, spelled.span, same]
  have cut := Text.extract_utf8Encode (texts before) (texts own) (texts after)
  rw [Text.byteLength_append] at cut
  exact cut.symm

/-- In a program the items of a group stand in order, apart from each other and strictly between the ends of the group;
what is quoted begins behind its quote mark and ends where the quotation ends. The bytes of a node at any depth are a
text that reads as one node, which moved to the place of these bytes is the node. -/
theorem spans_delimit {text : String} {nodes : List Node} (read : Node.read text = .ok nodes) :
    nodes.Pairwise (fun first second => first.span.stop ≤ second.span.start) ∧
    ∀ node ∈ allParts nodes,
      node.span.start < node.span.stop ∧ node.span.stop ≤ text.utf8ByteSize ∧
      (∀ span bracket items, node = group span bracket items →
        items.Pairwise (fun first second => first.span.stop ≤ second.span.start) ∧
        ∀ item ∈ items, span.start < item.span.start ∧ item.span.stop < span.stop) ∧
      (∀ span inner, node = quote span inner → span.start < inner.span.start ∧ inner.span.stop = span.stop) ∧
      ∃ slice alone, slice.toByteArray = text.toByteArray.extract node.span.start node.span.stop ∧
        Node.read slice = .ok [alone] ∧ alone.moved node.span.start = node := by
  obtain ⟨characters, rfl⟩ : ∃ characters, text = String.ofList characters := ⟨text.toList, String.ofList_toList.symm⟩
  have spelled := allSpelled_of_read read
  refine ⟨spelled.ordered.1, fun node member => ?_⟩
  obtain ⟨before, own, after, whole, part⟩ := spelled.part member
  rw [Nat.zero_add] at part
  refine ⟨part.start_lt_stop, ?_, ?_, ?_, exists_slice read member whole part⟩
  · have size := congrArg width whole
    rw [width, texts_all, width_append, width_append] at size
    rw [part.span, Text.utf8ByteSize_ofList, size]
    simp only
    omega
  · rintro span bracket items rfl
    exact part.items_inside
  · rintro span inner rfl
    exact part.inner_inside

/-- A quotation inside a map literal, with a comment behind its mark and characters of two bytes. -/
theorem spans_delimit_wide :
    ∃ literal vector : Node, Node.read "\x7b:k '#|ü|# [\"ß\" x]\x7d" = .ok [literal] ∧
      quote ⟨4, 20⟩ vector ∈ literal.parts ∧ vector.span = ⟨12, 20⟩ ∧ 4 < vector.span.start ∧ vector.span.stop = 20 ∧
      ∃ slice alone, slice.toByteArray = "\x7b:k '#|ü|# [\"ß\" x]\x7d".toByteArray.extract 12 20 ∧
        Node.read slice = .ok [alone] ∧ alone.moved 12 = vector := by
  let vector := group ⟨12, 20⟩ .square [atom ⟨13, 17⟩ (.string "ß"), atom ⟨18, 19⟩ (.symbol "x")]
  have read : Node.read "\x7b:k '#|ü|# [\"ß\" x]\x7d" =
      .ok [group ⟨0, 21⟩ .curly [atom ⟨1, 3⟩ (.keyword "k"), quote ⟨4, 20⟩ vector]] := rfl
  obtain ⟨_, each⟩ := spans_delimit read
  have quotation := (each (quote ⟨4, 20⟩ vector) (by simp [allParts, parts])).2.2.2.1 _ _ rfl
  have inside := (each vector (by simp [allParts, parts, vector])).2.2.2.2
  exact ⟨_, vector, read, by simp [allParts, parts], rfl, quotation.1, quotation.2, inside⟩

end Node

end Exemplar
