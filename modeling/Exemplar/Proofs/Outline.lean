import Exemplar.Proofs.Lexing
import Exemplar.Reader

/-!
# Reading without places

Which forms a text reads as does not depend on where they stand. An outline is a reading without its places; reading
one lexeme does the same to both, and what is finished outside of everything never matters to what comes later.
-/

namespace Exemplar

namespace Node

theorem forms_eq_map (nodes : List Node) : forms nodes = nodes.map form := by
  induction nodes with
  | nil => rfl
  | cons node rest ih => rw [forms, ih, List.map_cons]

end Node

/-! ## Map literals with an odd number of forms -/

namespace Form

mutual

/-- Whether every map literal in a form has an even number of forms. -/
def isEven : Form → Bool
  | atom _ => true
  | quote inner => isEven inner
  | group bracket items => areEven items && !(bracket == .curly && items.length % 2 == 1)

def areEven : List Form → Bool
  | [] => true
  | item :: rest => isEven item && areEven rest

end

theorem areEven_append (left right : List Form) : areEven (left ++ right) = (areEven left && areEven right) := by
  induction left with
  | nil => rfl
  | cons item rest ih => rw [List.cons_append, areEven, areEven, ih, Bool.and_assoc]

theorem areEven_iff {forms : List Form} : areEven forms = true ↔ ∀ form ∈ forms, isEven form = true := by
  induction forms with
  | nil => simp [areEven]
  | cons form rest ih => rw [areEven, Bool.and_eq_true, ih, List.forall_mem_cons]

end Form

mutual

theorem Node.oddMap?_eq_none (node : Node) : node.oddMap? = none ↔ node.form.isEven = true := by
  cases node with
  | atom span a => simp [oddMap?, form, Form.isEven]
  | quote span inner =>
      rw [oddMap?, form, Form.isEven]
      exact Node.oddMap?_eq_none inner
  | group span bracket items =>
      rw [oddMap?, form, Form.isEven, Option.or_eq_none_iff, Node.oddMaps?_eq_none items]
      by_cases isMap : bracket = .curly <;> simp [forms_eq_map, isMap]

theorem Node.oddMaps?_eq_none (nodes : List Node) :
    oddMaps? nodes = none ↔ Form.areEven (forms nodes) = true := by
  cases nodes with
  | nil => simp [oddMaps?, forms, Form.areEven]
  | cons node rest =>
      rw [oddMaps?, forms, Form.areEven, Option.or_eq_none_iff, Node.oddMap?_eq_none node,
        Node.oddMaps?_eq_none rest, Bool.and_eq_true]

end

/-! ## Outlines -/

namespace Reader

/-- What is open, innermost first, with the forms in it so far, and the forms outside of everything; both last
first. -/
structure Outline where
  stack : List (Opener × List Form)
  done : List Form

namespace Outline

def initial : Outline := ⟨[], []⟩

/-- Adds a finished form where it belongs. -/
def place (form : Form) (done : List Form) : List (Opener × List Form) → Outline
  | [] => ⟨[], form :: done⟩
  | (.quote, _) :: rest => place (.quote form) done rest
  | (.bracket bracket, items) :: rest => ⟨(.bracket bracket, form :: items) :: rest, done⟩

/-- The outline behind a finished form. -/
def push (outline : Outline) (form : Form) : Outline := place form outline.done outline.stack

/-- The outline inside a new group or quotation. -/
def descend (outline : Outline) (opener : Opener) : Outline := ⟨(opener, []) :: outline.stack, outline.done⟩

/-- Closes the innermost group when it has the right bracket. -/
def close (outline : Outline) (bracket : Bracket) : Option Outline :=
  match outline.stack with
  | (.bracket opened, items) :: rest =>
      if opened = bracket then some (place (.group bracket items.reverse) outline.done rest) else none
  | _ => none

def step (outline : Outline) : Lexeme → Option Outline
  | .block _ | .line _ => some outline
  | .string body => some (outline.push (.atom (.string (String.ofList (Text.decode body)))))
  | .word word => (Atom.ofWord? word).map fun a => outline.push (.atom a)
  | .mark c =>
      if isSpace c then some outline
      else if c = '\'' then some (outline.descend .quote)
      else
        match Bracket.ofOpening? c with
        | some bracket => some (outline.descend (.bracket bracket))
        | none => (Bracket.ofClosing? c).bind outline.close

def steps (outline : Outline) : List Lexeme → Option Outline
  | [] => some outline
  | lexeme :: rest => (outline.step lexeme).bind (·.steps rest)

theorem steps_append (outline : Outline) (left right : List Lexeme) :
    outline.steps (left ++ right) = (outline.steps left).bind (·.steps right) := by
  induction left generalizing outline with
  | nil => rfl
  | cons lexeme rest ih =>
      rw [List.cons_append, steps, steps, Option.bind_assoc]
      exact Option.bind_congr fun next _ => ih next

end Outline

/-- A reading without its places. -/
def Reading.outline (reading : Reading) : Outline :=
  ⟨reading.stack.map fun pending => (pending.opener, Node.forms pending.items), Node.forms reading.done⟩

namespace Reading

theorem place_outline (node : Node) (done : List Node) (stack : List Pending) (next : Nat) :
    (Reading.mk next (place node done stack).1 (place node done stack).2).outline =
      Outline.place node.form (Node.forms done)
        (stack.map fun pending => (pending.opener, Node.forms pending.items)) := by
  induction stack generalizing node with
  | nil => rfl
  | cons pending rest ih =>
      obtain ⟨opener, start, items⟩ := pending
      cases opener with
      | quote => exact ih (.quote ⟨start, node.span.stop⟩ node)
      | bracket bracket => rfl

theorem push_outline (reading : Reading) (node : Node) (next : Nat) :
    (reading.push node next).outline = reading.outline.push node.form :=
  place_outline node reading.done reading.stack next

theorem close_outline (reading : Reading) (bracket : Bracket) (next : Nat) :
    (reading.close bracket next).toOption.map outline = reading.outline.close bracket := by
  obtain ⟨offset, stack, done⟩ := reading
  cases stack with
  | nil => rfl
  | cons pending rest =>
      obtain ⟨opener, start, items⟩ := pending
      cases opener with
      | quote => rfl
      | bracket opened =>
          by_cases right : opened = bracket
          · subst right
            have placed := push_outline ⟨offset, rest, done⟩ (.group ⟨start, next⟩ opened items.reverse) next
            have closed : (close ⟨offset, ⟨.bracket opened, start, items⟩ :: rest, done⟩ opened next) =
                .ok (push ⟨offset, rest, done⟩ (.group ⟨start, next⟩ opened items.reverse) next) := if_pos rfl
            have reversed : Node.forms items.reverse = (Node.forms items).reverse := by simp [Node.forms_eq_map]
            rw [closed]
            change some (outline _) = _
            rw [placed, Node.form, reversed]
            exact (if_pos rfl).symm
          · have failed : (close ⟨offset, ⟨.bracket opened, start, items⟩ :: rest, done⟩ bracket next) =
                .error (fault ⟨offset, ⟨.bracket opened, start, items⟩ :: rest, done⟩) := if_neg right
            rw [failed]
            simp [Except.toOption, outline, Outline.close, right]

theorem step_outline (reading : Reading) (lexeme : Lexeme) :
    (reading.step lexeme).toOption.map outline = reading.outline.step lexeme := by
  cases lexeme with
  | block body => rfl
  | line body => rfl
  | string body => simp [step, Outline.step, Except.toOption, push_outline, Node.form]
  | word word =>
      cases spelled : Atom.ofWord? word <;>
        simp [step, Outline.step, spelled, Except.toOption, push_outline, Node.form]
  | mark c =>
      unfold step Outline.step
      dsimp only
      split
      · rfl
      · split
        · rfl
        · cases Bracket.ofOpening? c with
          | some bracket => rfl
          | none =>
              cases Bracket.ofClosing? c with
              | none => rfl
              | some bracket => exact close_outline reading bracket _

theorem steps_outline (reading : Reading) (lexemes : List Lexeme) :
    (reading.steps lexemes).toOption.map outline = reading.outline.steps lexemes := by
  induction lexemes generalizing reading with
  | nil => rfl
  | cons lexeme rest ih =>
      have one := step_outline reading lexeme
      rw [steps, Outline.steps, ← one]
      cases reading.step lexeme with
      | error fault => rfl
      | ok next => exact ih next

end Reading

namespace Outline

/-- What was finished outside of everything stays behind what is finished later and does not matter to it. -/
theorem place_frame (form : Form) (stack : List (Opener × List Form)) :
    ∃ after added, ∀ done, place form done stack = ⟨after, added ++ done⟩ := by
  induction stack generalizing form with
  | nil => exact ⟨[], [form], fun _ => rfl⟩
  | cons pending rest ih =>
      obtain ⟨opener, items⟩ := pending
      cases opener with
      | quote => exact ih (.quote form)
      | bracket bracket => exact ⟨(.bracket bracket, form :: items) :: rest, [], fun _ => rfl⟩

theorem step_frame {stack : List (Opener × List Form)} {done : List Form} {lexeme : Lexeme} {next : Outline}
    (read : step ⟨stack, done⟩ lexeme = some next) :
    ∃ added, ∀ other, step ⟨stack, other⟩ lexeme = some ⟨next.stack, added ++ other⟩ := by
  have placed (form : Form) (stack : List (Opener × List Form)) (same : place form done stack = next) :
      ∃ added, ∀ other, place form other stack = ⟨next.stack, added ++ other⟩ := by
    obtain ⟨after, added, frame⟩ := place_frame form stack
    refine ⟨added, fun other => ?_⟩
    rw [frame other, ← same, frame done]
  cases lexeme with
  | block body => cases read; exact ⟨[], fun _ => rfl⟩
  | line body => cases read; exact ⟨[], fun _ => rfl⟩
  | string body =>
      obtain ⟨added, frame⟩ := placed _ stack (Option.some.inj read)
      exact ⟨added, fun other => congrArg some (frame other)⟩
  | word word =>
      obtain ⟨a, spelled, same⟩ := Option.map_eq_some_iff.mp read
      obtain ⟨added, frame⟩ := placed _ stack same
      refine ⟨added, fun other => ?_⟩
      rw [step, spelled]
      exact congrArg some (frame other)
  | mark c =>
      unfold step at read ⊢
      dsimp only at read ⊢
      split
      · next space => rw [if_pos space] at read; cases read; exact ⟨[], fun _ => rfl⟩
      · next noSpace =>
          rw [if_neg noSpace] at read
          split
          · next quote => rw [if_pos quote] at read; cases read; exact ⟨[], fun _ => rfl⟩
          · next noQuote =>
              rw [if_neg noQuote] at read
              cases opening : Bracket.ofOpening? c with
              | some bracket => rw [opening] at read; cases read; exact ⟨[], fun _ => rfl⟩
              | none =>
                  rw [opening] at read
                  obtain ⟨bracket, closing, closed⟩ := Option.bind_eq_some_iff.mp read
                  unfold close at closed
                  dsimp only at closed
                  split at closed
                  · next opened items rest =>
                      split at closed
                      · next right =>
                          obtain ⟨added, frame⟩ := placed _ rest (Option.some.inj closed)
                          refine ⟨added, fun other => ?_⟩
                          simp [closing, close, right, frame]
                      · cases closed
                  · cases closed

theorem steps_frame {stack : List (Opener × List Form)} {done : List Form} {lexemes : List Lexeme} {next : Outline}
    (read : steps ⟨stack, done⟩ lexemes = some next) :
    ∃ added, ∀ other, steps ⟨stack, other⟩ lexemes = some ⟨next.stack, added ++ other⟩ := by
  induction lexemes generalizing stack done with
  | nil => cases read; exact ⟨[], fun _ => rfl⟩
  | cons lexeme rest ih =>
      obtain ⟨middle, first, later⟩ := Option.bind_eq_some_iff.mp read
      obtain ⟨added, frame⟩ := step_frame first
      obtain ⟨more, frame'⟩ := ih later
      refine ⟨more ++ added, fun other => ?_⟩
      rw [steps, frame other, List.append_assoc]
      exact frame' (added ++ other)

theorem step_not_stray {outline next : Outline} {lexeme : Lexeme} (read : outline.step lexeme = some next) :
    lexeme.isStray = false := by
  cases lexeme with
  | mark c =>
      rw [Lexeme.isStray, Bool.or_eq_false_iff, beq_eq_false_iff_ne, beq_eq_false_iff_ne]
      constructor <;> (rintro rfl; cases read)
  | _ => rfl

theorem steps_not_stray {outline next : Outline} {lexemes : List Lexeme} (read : outline.steps lexemes = some next) :
    ∀ lexeme ∈ lexemes, lexeme.isStray = false := by
  induction lexemes generalizing outline with
  | nil => exact fun _ member => nomatch member
  | cons lexeme rest ih =>
      obtain ⟨middle, first, later⟩ := Option.bind_eq_some_iff.mp read
      intro other member
      rcases List.mem_cons.mp member with rfl | old
      · exact step_not_stray first
      · exact ih later other old

/-! ## Reading inside of an open group -/

variable {bracket : Bracket} {items : List Form} {outer : List (Opener × List Form)} {above : List Form}

/-- The outline inside an open group, seen from the group: what is outside of everything there is an item of it. -/
def within (outline : Outline) (bracket : Bracket) (items : List Form) (outer : List (Opener × List Form))
    (above : List Form) : Outline :=
  ⟨outline.stack ++ (.bracket bracket, outline.done ++ items) :: outer, above⟩

theorem place_within (form : Form) (done : List Form) (stack : List (Opener × List Form)) :
    place form above (stack ++ (.bracket bracket, done ++ items) :: outer) =
      (place form done stack).within bracket items outer above := by
  induction stack generalizing form with
  | nil => rfl
  | cons pending rest ih =>
      obtain ⟨opener, inner⟩ := pending
      cases opener with
      | quote => exact ih (.quote form)
      | bracket b => rfl

theorem close_within {outline next : Outline} {b : Bracket} (closed : outline.close b = some next) :
    (outline.within bracket items outer above).close b = some (next.within bracket items outer above) := by
  obtain ⟨stack, done⟩ := outline
  cases stack with
  | nil => cases closed
  | cons pending rest =>
      obtain ⟨opener, inner⟩ := pending
      cases opener with
      | quote => cases closed
      | bracket opened =>
          by_cases right : opened = b
          · subst right
            have next' : place (.group opened inner.reverse) done rest = next := by
              simpa [close] using closed
            subst next'
            simp [close, within, place_within]
          · simp [close, right] at closed

theorem step_within {outline next : Outline} {lexeme : Lexeme} (read : outline.step lexeme = some next) :
    (outline.within bracket items outer above).step lexeme = some (next.within bracket items outer above) := by
  cases lexeme with
  | block body => cases read; rfl
  | line body => cases read; rfl
  | string body =>
      cases read
      exact congrArg some (place_within _ _ _)
  | word word =>
      obtain ⟨a, spelled, same⟩ := Option.map_eq_some_iff.mp read
      subst same
      rw [step, spelled]
      exact congrArg some (place_within _ _ _)
  | mark c =>
      unfold step at read ⊢
      dsimp only at read ⊢
      split
      · next space => rw [if_pos space] at read; cases read; rfl
      · next noSpace =>
          rw [if_neg noSpace] at read
          split
          · next quote => rw [if_pos quote] at read; cases read; rfl
          · next noQuote =>
              rw [if_neg noQuote] at read
              cases opening : Bracket.ofOpening? c with
              | some b => rw [opening] at read; cases read; rfl
              | none =>
                  rw [opening] at read
                  obtain ⟨b, closing, closed⟩ := Option.bind_eq_some_iff.mp read
                  rw [closing]
                  exact close_within closed

theorem steps_within (outline : Outline) {next : Outline} {lexemes : List Lexeme}
    (read : outline.steps lexemes = some next) :
    (outline.within bracket items outer above).steps lexemes = some (next.within bracket items outer above) := by
  induction lexemes generalizing outline with
  | nil => cases read; rfl
  | cons lexeme rest ih =>
      obtain ⟨middle, first, later⟩ := Option.bind_eq_some_iff.mp read
      rw [steps, step_within first]
      exact ih middle later

end Outline

end Reader

/-- A text reads as forms when its lexemes do, with nothing open at the end and no odd map literal. -/
theorem Form.read_ok_iff {text : List Char} {forms : List Form} :
    Form.read (String.ofList text) = .ok forms ↔
      Reader.Outline.initial.steps (Lexeme.all text) = some ⟨[], forms.reverse⟩ ∧
        Form.areEven forms = true := by
  have outlined := Reader.Reading.steps_outline .initial (Lexeme.all text)
  have start : Reader.Reading.initial.outline = Reader.Outline.initial := rfl
  rw [start] at outlined
  unfold Form.read Node.read Reader.nodes
  rw [String.toList_ofList, ← outlined]
  cases Reader.Reading.initial.steps (Lexeme.all text) with
  | error fault => simp [bind, Except.bind, Except.map, Except.toOption]
  | ok reading =>
      obtain ⟨offset, stack, done⟩ := reading
      cases stack with
      | cons pending rest =>
          simp [bind, Except.bind, Except.map, Except.toOption, Reader.Reading.finish, Reader.Reading.outline]
      | nil =>
          have even := Node.oddMaps?_eq_none done.reverse
          cases odd : Node.oddMaps? done.reverse with
          | some span =>
              have notEven : Form.areEven (Node.forms done.reverse) ≠ true := by simp [← even, odd]
              simp only [bind, Except.bind, Except.map, Except.toOption, Reader.Reading.finish,
                Reader.Reading.outline, List.isEmpty_nil, if_true, odd, Option.map_some, reduceCtorEq, false_iff]
              rintro ⟨same, isEven⟩
              apply notEven
              have done' : (Node.forms done).reverse = forms := by
                have parts := congrArg (·.done) (Option.some.inj same)
                simp only at parts
                rw [parts, List.reverse_reverse]
              rw [Node.forms_eq_map, List.map_reverse, ← Node.forms_eq_map, done']
              exact isEven
          | none =>
              rw [odd] at even
              simp only [bind, Except.bind, Except.map, Except.toOption, Reader.Reading.finish,
                Reader.Reading.outline, List.isEmpty_nil, if_true, odd, Option.map_some, Except.ok.injEq,
                Option.some.injEq, Reader.Outline.mk.injEq, List.map_nil, true_and]
              rw [Node.forms_eq_map, List.map_reverse, ← Node.forms_eq_map] at even ⊢
              constructor
              · rintro rfl
                exact ⟨(List.reverse_reverse _).symm, even.mp rfl⟩
              · rintro ⟨same, _⟩
                rw [same, List.reverse_reverse]

theorem Node.steps_of_read {text : List Char} {nodes : List Node} (read : Node.read (String.ofList text) = .ok nodes) :
    ∃ final, Reader.Reading.initial.steps (Lexeme.all text) = .ok final ∧ final.finish = .ok nodes := by
  unfold Node.read Reader.nodes at read
  rw [String.toList_ofList] at read
  cases stepped : Reader.Reading.initial.steps (Lexeme.all text) with
  | error fault => simp [stepped, bind, Except.bind] at read
  | ok final =>
      cases closed : final.finish with
      | error fault => simp [stepped, closed, bind, Except.bind] at read
      | ok found =>
          simp only [stepped, closed, bind, Except.bind] at read
          split at read
          · cases read
          · cases read
            exact ⟨final, rfl, closed⟩

end Exemplar
