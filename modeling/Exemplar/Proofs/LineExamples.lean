import Exemplar.Proofs.Insertion

/-!
# Examples in line comments

Replacing the examples of line comments keeps the program: its forms are those of the text, with the forms of each
example at the place of its comments.
-/

namespace Exemplar

open Reader

/-- The place where an example starts, in bytes. -/
def Example.place (text : List Char) (e : Example) : Nat := Position.byteOffset text e.input.span.start

namespace Example

/-- Replacing regions of comments and blanks by the code of examples inserts their forms. -/
theorem Spliced.inserted {text : List Char} {p : Position} {front lexemes result : List Lexeme}
    {examples : List Example} (spliced : Spliced p lexemes examples result) (fits : Position.Fits text)
    (whole : Lexeme.all text = front ++ lexemes) (place : p = Position.start.advance (Lexeme.texts front))
    (only : ∀ e ∈ examples, Comment.OnlyBetween text e.input.span.start e.stop)
    (readable : ∀ e ∈ examples, Harness.Readable e) :
    Inserted (Text.byteLength (Lexeme.texts front)) lexemes (examples.map fun e => (e.place text, Harness.forms e))
      (Lexeme.texts result) := by
  induction spliced generalizing front with
  | nil => exact .nil
  | @cons p before region after result e rest isRegion starts stops later ih =>
      have wholeAfter : Lexeme.all text = (front ++ (before ++ region)) ++ after := by simp [whole]
      have tail := ih wholeAfter (by rw [place, ← Position.advance_append, ← Lexeme.texts_append])
        (fun other member => only other (by simp [member])) fun other member => readable other (by simp [member])
      have here : e.place text = Text.byteLength (Lexeme.texts front) + Text.byteLength (Lexeme.texts before) := by
        have same : text = Lexeme.texts (front ++ before) ++ Lexeme.texts (region ++ after) := by
          rw [← Lexeme.texts_append, List.append_assoc, ← whole, Lexeme.texts_all]
        have bytes := Position.byteOffset_advance (same ▸ fits)
        rw [Example.place, starts, place, ← Position.advance_append, ← Lexeme.texts_append, same, bytes,
          Lexeme.texts_append, Text.byteLength_append]
      have trivia : ∀ lexeme ∈ region, lexeme.isTrivia = true := by
        have code := only e (by simp)
        rw [starts, stops, place, ← Position.advance_append, ← Position.advance_append,
          ← Lexeme.texts_append, ← Lexeme.texts_append, ← List.append_assoc] at code
        exact (Comment.onlyBetween_iff fits (by rw [whole, List.append_assoc])).mp code
      have leads := Lexeme.leads_all text
      rw [whole] at leads
      obtain ⟨leadsBefore, leadsRest⟩ := Lexeme.leads_append.mp (Lexeme.leads_append.mp leads).2
      obtain ⟨leadsRegion, leadsAfter⟩ := Lexeme.leads_append.mp leadsRest
      rw [List.append_nil] at leadsBefore leadsRegion
      have breaks := later.break_first leadsAfter (isRegion.break_behind leadsRegion)
      have readCode := Harness.code_reads 0 (readable e (by simp))
      rw [List.map_cons, here, Lexeme.texts_append, Lexeme.texts_append, Lexeme.texts_all]
      refine .cons trivia (fun l member => ?_) (fun done => ?_) ?_
      · obtain ⟨tail, same⟩ := isRegion.texts_eq (Lexeme.texts after)
        obtain ⟨c, others, code, noSymbol⟩ := Harness.code_head e
        have ends := leadsBefore.last l member
        rw [Lexeme.texts_append, same] at ends
        rw [code]
        exact ends.change (by decide) noSymbol
      · rw [Lexeme.all_append (Form.closed_of_read readCode) fun l _ => l.endsBefore_of_break breaks,
          Outline.steps_append, Form.steps_of_read readCode]
        rfl
      · rw [← Text.byteLength_append, ← Lexeme.texts_append]
        exact tail

/-- Reading what replaces the lexemes from a place on at which nothing is open. -/
theorem Spliced.steps {text : List Char} {p : Position} {front lexemes result : List Lexeme}
    {examples : List Example} (spliced : Spliced p lexemes examples result) (fits : Position.Fits text)
    (whole : Lexeme.all text = front ++ lexemes) (place : p = Position.start.advance (Lexeme.texts front))
    {reading final : Reading} {nodes later : List Node} (begun : reading.Begun) (empty : reading.stack = [])
    (offset : reading.offset = Text.byteLength (Lexeme.texts front))
    (read : reading.steps lexemes = .ok final) (finished : final.finish = .ok nodes)
    (split : nodes = reading.done.reverse ++ later)
    (outside : ∀ e ∈ examples, Outside (e.place text) nodes)
    (only : ∀ e ∈ examples, Comment.OnlyBetween text e.input.span.start e.stop)
    (readable : ∀ e ∈ examples, Harness.Readable e) (done : List Form) :
    Outline.steps ⟨[], done⟩ result =
      some ⟨[], (Node.formsWith later (examples.map fun e => (e.place text, Harness.forms e))).reverse ++ done⟩ := by
  have leads := Lexeme.leads_all text
  rw [whole] at leads
  have leadsHere := (Lexeme.leads_append.mp leads).2
  have leadsResult := spliced.leads leadsHere (Reading.steps_not_stray read)
    fun e member => Form.closed_of_read (Harness.code_reads 0 (readable e member))
  have lexed := Lexeme.all_of_leads leadsResult
  rw [List.append_nil, Lexeme.all_nil, List.append_nil] at lexed
  have outlined := (spliced.inserted fits whole place only readable).steps leadsHere begun empty offset read finished
    split (List.forall_mem_map.mpr outside) done
  rwa [lexed] at outlined

end Example

namespace Instrument

/-- The program behind a text whose line examples are replaced: every form of the text is kept, in order, and where
the comments of an example stood are the forms of the example. -/
theorem program_forms (lead source : List Char) {nodes : List Node} (fits : Position.Fits (normalize source))
    (read : Node.read (String.ofList (normalize source)) = .ok nodes)
    (noBlocks : Example.inBlocks lead (normalize source) = [])
    (outside : ∀ e ∈ Example.inLines lead (normalize source), Example.Outside (e.place (normalize source)) nodes)
    (only : ∀ e ∈ Example.inLines lead (normalize source),
      Comment.OnlyBetween (normalize source) e.input.span.start e.stop)
    (readable : ∀ e ∈ Example.inLines lead (normalize source), Harness.Readable e) :
    ∃ text, program .sx lead source = .ok text ∧
      Form.read (String.ofList text) = .ok (Node.formsWith nodes
        ((Example.inLines lead (normalize source)).map fun e => (e.place (normalize source), Harness.forms e))) := by
  have readForms : Form.read (String.ofList (normalize source)) = .ok (Node.forms nodes) := by rw [Form.read, read]; rfl
  have readCode (e : Example) (member : e ∈ Example.inLines lead (normalize source)) :=
    Harness.code_reads 0 (readable e member)
  obtain ⟨result, spliced, lexemes⟩ := Example.spliceLines_lexemes lead (normalize source) fits
    (Form.closed_of_read readForms) fun e member => Form.closed_of_read (readCode e member)
  obtain ⟨final, stepped, finished⟩ := Node.steps_of_read read
  have outlined := spliced.steps fits (List.nil_append _).symm rfl Reading.Begun.initial rfl rfl stepped finished
    (List.nil_append _).symm outside only readable []
  refine ⟨spliceLines (normalize source) (Example.inLines lead (normalize source)), ?_, ?_⟩
  · exact if_pos (List.isEmpty_iff.mpr noBlocks)
  · refine Form.read_ok_iff.mpr ⟨?_, Node.formsWith_even (Form.read_ok_iff.mp readForms).2 ?_⟩
    · rw [lexemes, ← List.append_nil (List.reverse _)]
      exact outlined
    · intro item member
      obtain ⟨e, found, rfl⟩ := List.mem_map.mp member
      exact (Form.read_ok_iff.mp (readCode e found)).2

/-- Two examples, one with a comment of its own inside and one that is a declaration, around a block comment and a
string that looks like an example. -/
theorem program_forms_two_examples :
    ∃ text,
      program .sx [] "(f \"; > 0\")\n; > 1 ; one\n; 1\n'a #| b |#\n; > (define y 2)\n".toList = .ok text ∧
        Form.read (String.ofList text) =
          .ok [.group .round [.atom (.symbol "f"), .atom (.string "; > 0")],
            Harness.inputForm [.atom (.number 1)], Harness.outputForm 3 false [.atom (.number 1)],
            .quote (.atom (.symbol "a")),
            .group .round [.atom (.symbol "define"), .atom (.symbol "y"), .atom (.number 2)]] :=
  program_forms [] "(f \"; > 0\")\n; > 1 ; one\n; 1\n'a #| b |#\n; > (define y 2)\n".toList (by decide) rfl (by decide)
    (by decide) (by decide) (by
      have examples : Example.inLines [] (normalize
          "(f \"; > 0\")\n; > 1 ; one\n; 1\n'a #| b |#\n; > (define y 2)\n".toList) = [_, _] := rfl
      rw [examples]
      intro e member
      rcases List.mem_pair.mp member with rfl | rfl
      · exact ⟨⟨_, rfl⟩, fun output same => by cases same; exact ⟨_, rfl⟩⟩
      · exact ⟨⟨_, rfl⟩, fun output same => by cases same⟩)

end Instrument

end Exemplar
