import Exemplar.Proofs.Splicing
import Exemplar.Proofs.TopLevel
import Exemplar.Proofs.Trivia

/-!
# Code in the place of comments

Stretches of comments and blanks that lie outside of every top-level node are replaced by code. The forms of the new
text are those of the old one, in order, with the forms of the code at the places of the stretches. What matters is
where one piece of the new text ends and the next begins: nothing that follows a piece may be drawn into its last
lexeme.
-/

namespace Exemplar

open Reader

namespace Node

/-- The forms of nodes with other forms put in at places of the text. -/
def formsWith (nodes : List Node) : List (Nat × List Form) → List Form
  | [] => forms nodes
  | (place, inserted) :: rest =>
      forms (nodes.takeWhile (·.span.start < place)) ++
        (inserted ++ formsWith (nodes.dropWhile (·.span.start < place)) rest)

theorem formsWith_even {nodes : List Node} {inserted : List (Nat × List Form)}
    (even : Form.areEven (forms nodes) = true) (evenInserted : ∀ item ∈ inserted, Form.areEven item.2 = true) :
    Form.areEven (formsWith nodes inserted) = true := by
  induction inserted generalizing nodes with
  | nil => exact even
  | cons item rest ih =>
      rw [← List.takeWhile_append_dropWhile (p := (·.span.start < item.1)) (l := nodes), forms_eq_map,
        List.map_append, Form.areEven_append, Bool.and_eq_true, ← forms_eq_map, ← forms_eq_map] at even
      rw [formsWith, Form.areEven_append, Form.areEven_append, even.1, evenInserted item (by simp),
        ih even.2 fun other member => evenInserted other (by simp [member])]
      rfl

end Node

namespace Reader.Reading

/-- Lexemes that a reading gets through outside of everything add the same forms to any outline. -/
theorem outline_steps {reading next : Reading} {lexemes : List Lexeme} {added : List Node}
    (read : reading.steps lexemes = .ok next) (empty : reading.stack = []) (empty' : next.stack = [])
    (finished : next.done = added ++ reading.done) (done : List Form) :
    Outline.steps ⟨[], done⟩ lexemes = some ⟨[], Node.forms added ++ done⟩ := by
  have outlined := steps_outline reading lexemes
  rw [read] at outlined
  have before : reading.outline = ⟨[], Node.forms reading.done⟩ := by simp [outline, empty]
  have after : next.outline = ⟨[], Node.forms added ++ Node.forms reading.done⟩ := by
    simp [outline, empty', finished, Node.forms_eq_map]
  simp only [Except.toOption, Option.map_some, before, after] at outlined
  obtain ⟨more, frame⟩ := Outline.steps_frame outlined.symm
  have same := (frame (Node.forms reading.done)).symm.trans outlined.symm
  obtain rfl : more = Node.forms added := by simpa using same
  exact frame done

end Reader.Reading

/-- A node stands before the place or behind it. -/
def Example.Outside (place : Nat) (nodes : List Node) : Prop :=
  ∀ node ∈ nodes, place ≤ node.span.start ∨ node.span.stop ≤ place

instance (place : Nat) (nodes : List Node) : Decidable (Example.Outside place nodes) :=
  inferInstanceAs (Decidable (∀ node ∈ nodes, _))

namespace Reader

/-- `result` is the text of lexemes from the byte `offset` on, with stretches of comments and blanks replaced by code;
`inserted` holds the place of each stretch and the forms of its code. -/
inductive Inserted : Nat → List Lexeme → List (Nat × List Form) → List Char → Prop where
  | nil {offset : Nat} {lexemes : List Lexeme} : Inserted offset lexemes [] (Lexeme.texts lexemes)
  | cons {offset : Nat} {before region after : List Lexeme} {forms : List Form} {rest : List (Nat × List Form)}
      {code result : List Char} (trivia : ∀ lexeme ∈ region, lexeme.isTrivia = true)
      (ends : ∀ lexeme ∈ before.getLast?, lexeme.EndsBefore (code ++ result))
      (reads : ∀ done, Outline.steps ⟨[], done⟩ (Lexeme.all (code ++ result)) =
        Outline.steps ⟨[], forms.reverse ++ done⟩ (Lexeme.all result))
      (later : Inserted (offset + Text.byteLength (Lexeme.texts (before ++ region))) after rest result) :
      Inserted offset (before ++ (region ++ after)) ((offset + Text.byteLength (Lexeme.texts before), forms) :: rest)
        (Lexeme.texts before ++ (code ++ result))

/-- Reading the new text from a place on at which nothing is open. The induction goes over the stretches, with a
reading of the old text that has come as far as the last one. -/
theorem Inserted.steps {offset : Nat} {lexemes : List Lexeme} {inserted : List (Nat × List Form)}
    {result : List Char} (insertion : Inserted offset lexemes inserted result) (leads : Lexeme.Leads [] lexemes)
    {reading final : Reading} {nodes later : List Node} (begun : reading.Begun) (empty : reading.stack = [])
    (here : reading.offset = offset) (read : reading.steps lexemes = .ok final) (finished : final.finish = .ok nodes)
    (split : nodes = reading.done.reverse ++ later) (outside : ∀ item ∈ inserted, Example.Outside item.1 nodes)
    (done : List Form) :
    Outline.steps ⟨[], done⟩ (Lexeme.all result) =
      some ⟨[], (Node.formsWith later inserted).reverse ++ done⟩ := by
  induction insertion generalizing reading later done with
  | nil =>
      have closed := Reading.finish_ok finished
      have added : final.done = later.reverse ++ reading.done := by
        rw [← List.reverse_reverse final.done, ← closed.2, split, List.reverse_append, List.reverse_reverse]
      have lexed := Lexeme.all_of_leads leads
      rw [List.append_nil, Lexeme.all_nil, List.append_nil] at lexed
      rw [lexed, Reading.outline_steps read empty closed.1 added]
      simp [Node.formsWith, Node.forms_eq_map]
  | @cons offset before region after forms rest code result trivia ends reads tail ih =>
      cases first : reading.steps before with
      | error fault => simp [Reading.steps_append, first, Except.bind] at read
      | ok middle =>
          have readRest : middle.steps (region ++ after) = .ok final := by
            simpa [Reading.steps_append, first, Except.bind] using read
          have begunMiddle := Reading.steps_keep Reading.step_begun begun first
          have place : middle.offset = offset + Text.byteLength (Lexeme.texts before) := by
            rw [Reading.steps_offset first, here]
          -- No node lies around the stretch, so nothing is open there and the nodes are cut in two.
          obtain ⟨emptyMiddle, behind, split', starting, begins⟩ :=
            Reading.finish_outside begunMiddle readRest finished (place ▸ outside _ List.mem_cons_self)
          have initially : Reading.Since reading.offset reading.done reading :=
            ⟨⟨[], rfl, fun _ member => nomatch member⟩, fun _ member => by simp [empty] at member, Nat.le_refl _⟩
          obtain ⟨added, isDone, _⟩ := (Reading.steps_keep Reading.step_since initially first).finished
          have laterSplit : later = added.reverse ++ behind := by
            rw [isDone, List.reverse_append, List.append_assoc] at split'
            exact List.append_cancel_left (split.symm.trans split')
          have isBefore : ∀ node ∈ added.reverse,
              decide (node.span.start < offset + Text.byteLength (Lexeme.texts before)) = true := by
            intro node member
            rw [← place, decide_eq_true_eq]
            exact starting node (by rw [isDone]; simp [List.mem_reverse.mp member])
          have notBefore : ∀ node ∈ behind,
              decide (node.span.start < offset + Text.byteLength (Lexeme.texts before)) = false := by
            intro node member
            rw [← place, decide_eq_false_iff_not, Nat.not_lt]
            exact begins node member
          have skipped := middle.steps_trivia trivia
          have readAfter : (middle.skip (middle.offset + Text.byteLength (Lexeme.texts region))).steps after =
              .ok final := by
            simpa [Reading.steps_append, skipped, Except.bind] using readRest
          obtain ⟨leadsBefore, leadsRest⟩ := Lexeme.leads_append.mp leads
          have recurse := ih (Lexeme.leads_append.mp leadsRest).2
            (Reading.steps_keep Reading.step_begun begunMiddle skipped) emptyMiddle
            (by
              rw [Reading.skip, place]
              simp [Nat.add_assoc])
            readAfter split' (fun item member => outside item (List.mem_cons_of_mem _ member))
            (forms.reverse ++ (Node.forms added ++ done))
          have leadsCode := leadsBefore.change (Reading.steps_not_stray first) ends
          rw [Lexeme.all_of_leads leadsCode, Outline.steps_append,
            Reading.outline_steps first empty emptyMiddle isDone, Option.bind_some, reads, recurse, Node.formsWith,
            laterSplit, Example.takeWhile_cut isBefore notBefore, Example.dropWhile_cut isBefore notBefore]
          simp [Node.forms_eq_map]

end Reader

/-- A program with code inserted reads as its own forms with those of the code. -/
theorem Form.read_inserted {text result : List Char} {nodes : List Node} {inserted : List (Nat × List Form)}
    (read : Node.read (String.ofList text) = .ok nodes) (insertion : Inserted 0 (Lexeme.all text) inserted result)
    (outside : ∀ item ∈ inserted, Example.Outside item.1 nodes)
    (even : ∀ item ∈ inserted, Form.areEven item.2 = true) :
    Form.read (String.ofList result) = .ok (Node.formsWith nodes inserted) := by
  have readForms : Form.read (String.ofList text) = .ok (Node.forms nodes) := by rw [Form.read, read]; rfl
  obtain ⟨final, stepped, finished⟩ := Node.steps_of_read read
  have outlined := insertion.steps (Lexeme.leads_all text) Reading.Begun.initial rfl rfl stepped finished
    (List.nil_append _).symm outside []
  rw [List.append_nil] at outlined
  exact Form.read_ok_iff.mpr ⟨outlined, Node.formsWith_even (Form.read_ok_iff.mp readForms).2 even⟩

/-! ## Code of several examples -/

theorem Form.read_joinLines {texts : List (List Char)}
    (readable : ∀ text ∈ texts, ∃ forms, Form.read (String.ofList text) = .ok forms) :
    Form.read (String.ofList (Text.joinLines texts)) = .ok (texts.flatMap Form.ofText) := by
  induction texts with
  | nil => rfl
  | cons text rest ih =>
      obtain ⟨forms, read⟩ := readable text (by simp)
      have later := ih fun other member => readable other (by simp [member])
      rw [List.flatMap_cons, Form.ofText_of_read read]
      cases rest with
      | nil =>
          rw [List.flatMap_nil, List.append_nil]
          exact read
      | cons second more => exact Form.read_append_break read later

theorem Harness.codes_read (width : Example → Nat) {examples : List Example} (readable : ∀ e ∈ examples, Readable e) :
    Form.read (String.ofList (Text.joinLines (examples.map fun e => code (width e) e))) =
      .ok (examples.flatMap forms) := by
  have reads : ∀ text ∈ examples.map (fun e => code (width e) e),
      ∃ forms, Form.read (String.ofList text) = .ok forms := by
    intro text member
    obtain ⟨e, found, rfl⟩ := List.mem_map.mp member
    exact ⟨_, code_reads (width e) (readable e found)⟩
  have same : examples.flatMap (fun e => Form.ofText (code (width e) e)) = examples.flatMap forms :=
    List.flatMap_congr fun e member => Form.ofText_of_read (code_reads (width e) (readable e member))
  rw [Form.read_joinLines reads, List.flatMap_map, same]

/-! ## Where the code ends -/

namespace Lexeme

/-- Nothing that follows a text is drawn into its last lexeme: no code of the same line into a comment, no character
into a word. -/
def Parts (text after : List Char) : Prop :=
  match (all text).getLast? with
  | some (line _) => ∀ lexeme ∈ all (after.takeWhile (!isLineBreak ·)), lexeme.isTrivia = true
  | some (word _) => ∀ c ∈ after.head?, isSymbolChar c = false
  | _ => True

theorem not_stray_of_trivia {lexeme : Lexeme} (trivia : lexeme.isTrivia = true) : lexeme.isStray = false := by
  cases lexeme with
  | mark c =>
      rw [isStray, Bool.or_eq_false_iff, beq_eq_false_iff_ne, beq_eq_false_iff_ne]
      constructor <;> (rintro rfl; cases trivia)
  | _ => rfl

theorem head_dropWhile_break (after : List Char) :
    ∀ c ∈ (after.dropWhile (!isLineBreak ·)).head?, isLineBreak c = true := by
  intro c member
  have stops := List.head?_dropWhile_not (!isLineBreak ·) after
  rw [member] at stops
  simpa using stops

/-- The last lexeme of a text may grow by what follows it. -/
theorem all_append_last {text run rest : List Char} {front : List Lexeme} {lexeme longer : Lexeme}
    (closed : ∀ lexeme ∈ all text, lexeme.isStray = false) (lexemes : all text = front ++ [lexeme])
    (grown : longer.text = lexeme.text ++ run) (opens : longer.Opens rest) :
    all (text ++ (run ++ rest)) = front ++ longer :: all rest := by
  have leads := leads_all text
  rw [lexemes] at leads closed
  obtain ⟨leadsFront, opensLast, -⟩ := leads_append.mp leads
  have whole : text ++ (run ++ rest) = texts (front ++ [longer]) ++ rest := by
    rw [← texts_all text, lexemes]
    simp [grown]
  have leadsLonger : Leads rest (front ++ [longer]) := by
    refine leads_append.mpr ⟨leadsFront.change (fun l member => closed l (by simp [member])) fun l member => ?_,
      opens, trivial⟩
    obtain ⟨c, others, begins⟩ := List.exists_cons_of_ne_nil opensLast.text_ne_nil
    refine (leadsFront.last l member).of_head ?_
    simp [grown, begins]
  rw [whole, all_of_leads leadsLonger, List.append_assoc]
  rfl

/-- A comment at the end of a text takes the rest of its line. -/
theorem all_append_line {text : List Char} {front : List Lexeme} {body : List Char}
    (closed : ∀ lexeme ∈ all text, lexeme.isStray = false) (lexemes : all text = front ++ [line body])
    (after : List Char) :
    all (text ++ after) =
      front ++ line (body ++ after.takeWhile (!isLineBreak ·)) :: all (after.dropWhile (!isLineBreak ·)) := by
  have leads := leads_all text
  rw [lexemes] at leads
  have opens := (leads_append.mp leads).2.1
  conv_lhs => rw [← List.takeWhile_append_dropWhile (p := (!isLineBreak ·)) (l := after)]
  refine all_append_last closed lexemes rfl (opens_line.mpr ⟨fun c member => ?_, head_dropWhile_break after⟩)
  rcases List.mem_append.mp member with old | new
  · exact (opens_line.mp opens).1 c old
  · simpa using List.mem_takeWhile_imp new

end Lexeme

theorem Reader.Outline.steps_trivia (outline : Outline) {lexemes : List Lexeme}
    (trivia : ∀ lexeme ∈ lexemes, lexeme.isTrivia = true) : outline.steps lexemes = some outline := by
  induction lexemes with
  | nil => rfl
  | cons lexeme rest ih =>
      have one : outline.step lexeme = some outline := by
        have here := trivia lexeme (by simp)
        cases lexeme with
        | block body => rfl
        | line body => rfl
        | mark c => exact if_pos here
        | string body => cases here
        | word word => cases here
      rw [steps, one]
      exact ih fun other member => trivia other (by simp [member])

/-- What stands behind a text that parts from it is read as if it stood alone. -/
theorem Reader.Outline.steps_parts {text after : List Char} (parts : Lexeme.Parts text after)
    (closed : ∀ lexeme ∈ Lexeme.all text, lexeme.isStray = false) (outline : Outline) :
    outline.steps (Lexeme.all (text ++ after)) =
      (outline.steps (Lexeme.all text)).bind (·.steps (Lexeme.all after)) := by
  have whole (ends : ∀ lexeme ∈ (Lexeme.all text).getLast?, lexeme.EndsBefore after) :
      outline.steps (Lexeme.all (text ++ after)) =
        (outline.steps (Lexeme.all text)).bind (·.steps (Lexeme.all after)) := by
    rw [Lexeme.all_append closed ends, steps_append]
  rw [Lexeme.Parts] at parts
  cases final : (Lexeme.all text).getLast? with
  | none => exact whole (by simp [final])
  | some lexeme =>
      rw [final] at parts
      cases lexeme with
      | line body =>
          obtain ⟨front, lexemes⟩ := List.getLast?_eq_some_iff.mp final
          have cut := List.takeWhile_append_dropWhile (p := (!Lexeme.isLineBreak ·)) (l := after)
          have behind : Lexeme.all after = Lexeme.all (after.takeWhile (!Lexeme.isLineBreak ·)) ++
              Lexeme.all (after.dropWhile (!Lexeme.isLineBreak ·)) := by
            conv_lhs => rw [← cut]
            exact Lexeme.all_append (fun l member => Lexeme.not_stray_of_trivia (parts l member))
              fun l _ => l.endsBefore_of_break (Lexeme.head_dropWhile_break after)
          rw [Lexeme.all_append_line closed lexemes, behind, lexemes, steps_append, steps_append, Option.bind_assoc]
          refine Option.bind_congr fun next _ => ?_
          change _ = next.steps (_ ++ _)
          rw [steps_append, steps_trivia next parts]
          rfl
      | _ => exact whole fun l member => by cases final.symm.trans member; exact parts

end Exemplar
