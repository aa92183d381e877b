import Exemplar.Envelope
import Exemplar.Proofs.ExampleCode

/-!
# Programs in a scope of their own

What a program in its module envelope reads as: the definition of the queue, a scope that holds the forms of the
program, and the export of the queue.
-/

namespace Exemplar

open Reader

namespace Lexeme

theorem Opens.eq_mark_of_break {lexeme : Lexeme} {after front : List Char} (opens : lexeme.Opens after)
    (ends : lexeme.text = front ++ ['\n']) : lexeme = mark '\n' := by
  have last : lexeme.text.getLast? = some '\n' := by rw [ends, List.getLast?_concat]
  cases lexeme with
  | string body =>
      rw [text, ← List.cons_append, List.getLast?_concat] at last
      cases last
  | block body =>
      have split : text (block body) = ('#' :: '|' :: (body ++ ['|'])) ++ ['#'] := by simp [text]
      rw [split, List.getLast?_concat] at last
      cases last
  | line body =>
      rcases List.mem_cons.mp (List.mem_of_getLast? last) with wrong | inBody
      · cases wrong
      · exact absurd ((opens_line.mp opens).1 _ inBody) (by decide)
  | word characters => exact absurd ((opens_word.mp opens).2.1 _ (List.mem_of_getLast? last)) (by decide)
  | mark c =>
      obtain rfl : c = '\n' := Option.some.inj last
      rfl

/-- A final line break of a text without stray marks is a lexeme of its own. -/
theorem all_concat_break {front : List Char} (closed : ∀ lexeme ∈ all (front ++ ['\n']), lexeme.isStray = false) :
    all (front ++ ['\n']) = all front ++ [mark '\n'] := by
  have leads := leads_all (front ++ ['\n'])
  have texts := texts_all (front ++ ['\n'])
  rcases List.eq_nil_or_concat (all (front ++ ['\n'])) with none | ⟨before, last, whole⟩
  · rw [none] at texts
    simp at texts
  · rw [List.concat_eq_append] at whole
    rw [whole] at leads texts closed ⊢
    obtain ⟨leadsBefore, opens, _⟩ := leads_append.mp leads
    rw [texts_append, texts_cons, texts_nil, List.append_nil] at texts
    obtain ⟨start, d, split⟩ : ∃ start d, last.text = start ++ [d] :=
      ⟨_, _, (List.dropLast_concat_getLast opens.text_ne_nil).symm⟩
    rw [split, ← List.append_assoc] at texts
    obtain ⟨same, final⟩ := List.append_inj' texts rfl
    obtain rfl : d = '\n' := (List.cons.inj final).1
    obtain rfl := opens.eq_mark_of_break split
    obtain rfl : start = [] := by simpa [text] using split
    rw [List.append_nil] at same
    have leadsAlone : Leads [] before := leadsBefore.change (fun lexeme member => closed lexeme (by simp [member]))
      fun lexeme _ => lexeme.endsBefore_of_break (by simp)
    have alone := all_of_leads leadsAlone
    rw [List.append_nil, same, all_nil, List.append_nil] at alone
    rw [alone]

theorem all_dropFinalBreak {text : List Char} (closed : ∀ lexeme ∈ all text, lexeme.isStray = false) :
    ∃ tail, all text = all (Text.dropFinalBreak text) ++ tail ∧ (tail = [] ∨ tail = [mark '\n']) := by
  unfold Text.dropFinalBreak
  split
  · next final =>
      obtain ⟨front, rfl⟩ := List.getLast?_eq_some_iff.mp final
      rw [List.dropLast_concat]
      exact ⟨[mark '\n'], all_concat_break closed, .inr rfl⟩
  · exact ⟨[], (List.append_nil _).symm, .inl rfl⟩

end Lexeme

theorem Reader.Outline.steps_dropFinalBreak {text : List Char}
    (closed : ∀ lexeme ∈ Lexeme.all text, lexeme.isStray = false) (outline : Outline) :
    outline.steps (Lexeme.all (Text.dropFinalBreak text)) = outline.steps (Lexeme.all text) := by
  obtain ⟨tail, whole, blank⟩ := Lexeme.all_dropFinalBreak closed
  rw [whole, steps_append]
  rcases blank with rfl | rfl <;> exact (Option.bind_fun_some _).symm

theorem Form.read_dropFinalBreak {text : List Char} {forms : List Form}
    (read : Form.read (String.ofList text) = .ok forms) :
    Form.read (String.ofList (Text.dropFinalBreak text)) = .ok forms := by
  have parts := Form.read_ok_iff.mp read
  rw [← Outline.steps_dropFinalBreak (Form.closed_of_read read)] at parts
  exact Form.read_ok_iff.mpr parts

namespace Envelope

def queueForm : Form :=
  .group .round [.atom (.symbol "define"), .atom (.symbol Harness.queueName),
    .group .round [.atom (.symbol "doctest/queue")]]

def scopeForm (forms : List Form) : Form :=
  .group .round (.atom (.symbol "let") :: .group .round [] :: (forms ++ [.atom .nil]))

def exportForm : Form :=
  .group .round [.atom (.symbol "export!"), .atom (.string Harness.queueName), .atom (.symbol Harness.queueName)]

/-- The lines before and behind a program in a scope of its own. -/
def linesBefore : List Char := "(define __doctest (doctest/queue))\n\n(let ()".toList

@[inherit_doc linesBefore]
def linesBehind : List Char := "  nil)\n\n(export! \"__doctest\" __doctest)\n".toList

theorem wrap_eq (text : List Char) :
    wrap .commonjs text = linesBefore ++ '\n' :: (Text.dropFinalBreak text ++ '\n' :: linesBehind) := by
  have front : scopeOpening = linesBefore ++ ['\n'] := rfl
  have back : scopeClosing = '\n' :: linesBehind := rfl
  rw [wrap, front, back, List.append_assoc, List.append_assoc, List.singleton_append]

/-- Where the program is read: in the scope, which holds nothing yet. -/
def inside (outline : Outline) : Outline :=
  outline.within .round [.group .round [], .atom (.symbol "let")] [] [queueForm]

theorem steps_before : Outline.initial.steps (Lexeme.all linesBefore) = some (inside .initial) := rfl

theorem steps_export (outline : Outline) :
    outline.steps (Lexeme.all "\n\n(export! \"__doctest\" __doctest)\n".toList) = some (outline.push exportForm) := rfl

theorem steps_behind (outline : Outline) :
    outline.steps (Lexeme.all linesBehind) =
      ((outline.push (.atom .nil)).close .round).map (·.push exportForm) := by
  have cut : Lexeme.all linesBehind = [.mark ' ', .mark ' ', .word "nil".toList, .mark ')'] ++
      Lexeme.all "\n\n(export! \"__doctest\" __doctest)\n".toList := rfl
  have closing : outline.steps [.mark ' ', .mark ' ', .word "nil".toList, .mark ')'] =
      ((outline.push (.atom .nil)).close .round).bind some := rfl
  rw [cut, Outline.steps_append, closing, Option.bind_fun_some, Option.map_eq_bind]
  exact Option.bind_congr fun next _ => steps_export next

theorem steps_break (outline : Outline) (after : List Lexeme) :
    outline.steps (.mark '\n' :: after) = outline.steps after := rfl

theorem steps_wrap {text : List Char}
    (closed : ∀ lexeme ∈ Lexeme.all (Text.dropFinalBreak text), lexeme.isStray = false) :
    Outline.initial.steps (Lexeme.all (wrap .commonjs text)) =
      ((inside .initial).steps (Lexeme.all (Text.dropFinalBreak text))).bind (·.steps (Lexeme.all linesBehind)) := by
  rw [wrap_eq, Lexeme.all_append_break (Outline.steps_not_stray steps_before), Lexeme.all_append_break closed,
    Outline.steps_append, steps_before, Option.bind_some, steps_break, Outline.steps_append]
  rfl

/-- A program in a scope of its own reads as three forms. -/
theorem read_wrap {text : List Char} {forms : List Form} (read : Form.read (String.ofList text) = .ok forms) :
    Form.read (String.ofList (wrap .commonjs text)) = .ok [queueForm, scopeForm forms, exportForm] := by
  have dropped := Form.read_dropFinalBreak read
  have inScope : (inside .initial).steps (Lexeme.all (Text.dropFinalBreak text)) = some (inside ⟨[], forms.reverse⟩) :=
    Outline.initial.steps_within (Form.read_ok_iff.mp dropped).1
  refine Form.read_ok_iff.mpr ⟨?_, ?_⟩
  · rw [steps_wrap (Form.closed_of_read dropped), inScope, Option.bind_some, steps_behind]
    simp [inside, Outline.within, Outline.push, Outline.place, Outline.close, scopeForm]
  · have even := (Form.read_ok_iff.mp read).2
    simp [Form.areEven, Form.isEven, queueForm, scopeForm, exportForm, Form.areEven_append, even]

end Envelope

end Exemplar
