import Exemplar.Proofs.LiterateExamples
import Exemplar.Proofs.OpenMarks

/-!
# Contained examples

The texts of an example stand between the brackets of its code. When neither closes what was opened outside of it, the
code is a program exactly when the texts are, and the forms of the texts are the bodies of its functions.
-/

namespace Exemplar

open Reader

/-! ## Brackets -/

namespace Lexeme

/-- One for a bracket that opens a group, minus one for a bracket that closes one. -/
def turn : Lexeme → Int
  | mark c => if (Bracket.ofOpening? c).isSome then 1 else if (Bracket.ofClosing? c).isSome then -1 else 0
  | _ => 0

/-- How many more brackets open than close. -/
def net : List Lexeme → Int
  | [] => 0
  | lexeme :: rest => lexeme.turn + net rest

@[simp] theorem net_nil : net [] = 0 := rfl

@[simp] theorem net_cons (lexeme : Lexeme) (rest : List Lexeme) : net (lexeme :: rest) = lexeme.turn + net rest := rfl

@[simp] theorem net_append (left right : List Lexeme) : net (left ++ right) = net left + net right := by
  induction left with
  | nil => simp
  | cons lexeme rest ih => rw [List.cons_append, net_cons, ih, net_cons, Int.add_assoc]

theorem net_indent (width : Nat) (text : List Char) :
    net (all (List.replicate width ' ' ++ text)) = net (all text) := by
  have space : turn (mark ' ') = 0 := rfl
  induction width with
  | zero => rfl
  | succ width ih => rw [List.replicate_succ, List.cons_append, all_space, net_cons, ih, space, Int.zero_add]

end Lexeme

namespace Reader.Outline

/-- How many groups are open on a stack. -/
def depth (stack : List (Opener × List Form)) : Nat := stack.countP (·.1 != .quote)

@[simp] theorem depth_quote (items : List Form) (rest : List (Opener × List Form)) :
    depth ((.quote, items) :: rest) = depth rest := by
  simp [depth]

@[simp] theorem depth_bracket (bracket : Bracket) (items : List Form) (rest : List (Opener × List Form)) :
    depth ((.bracket bracket, items) :: rest) = depth rest + 1 := by
  simp [depth]

@[simp] theorem depth_place (form : Form) (done : List Form) (stack : List (Opener × List Form)) :
    depth (place form done stack).stack = depth stack := by
  induction stack generalizing form with
  | nil => rfl
  | cons pending rest ih =>
      obtain ⟨opener, items⟩ := pending
      cases opener with
      | quote =>
          rw [depth_quote]
          exact ih (.quote form)
      | bracket bracket => simp [place]

theorem depth_step {outline next : Outline} {lexeme : Lexeme} (read : outline.step lexeme = some next) :
    (depth next.stack : Int) = depth outline.stack + lexeme.turn := by
  cases lexeme with
  | block body => cases read; simp [Lexeme.turn]
  | line body => cases read; simp [Lexeme.turn]
  | string body =>
      cases read
      simp [push, Lexeme.turn]
  | word word =>
      obtain ⟨a, _, rfl⟩ := Option.map_eq_some_iff.mp read
      simp [push, Lexeme.turn]
  | mark c =>
      unfold step at read
      dsimp only at read
      rw [Lexeme.turn]
      split at read
      · next space =>
          cases read
          simp only [isSpace, Bool.or_eq_true, beq_iff_eq] at space
          rcases space with ((rfl | rfl) | rfl) | rfl <;> simp [Bracket.ofOpening?, Bracket.ofClosing?]
      · split at read
        · next quote =>
            cases read
            subst quote
            simp [descend, Bracket.ofOpening?, Bracket.ofClosing?]
        · cases opening : Bracket.ofOpening? c with
          | some bracket =>
              rw [opening] at read
              cases read
              simp [descend]
          | none =>
              rw [opening] at read
              obtain ⟨bracket, closing, closed⟩ := Option.bind_eq_some_iff.mp read
              obtain ⟨stack, done⟩ := outline
              unfold close at closed
              dsimp only at closed
              split at closed
              · next opened items rest =>
                  split at closed
                  · cases closed
                    rw [depth_place, depth_bracket, closing]
                    simp only [Option.isSome_none, Option.isSome_some, Bool.false_eq_true, if_false, if_true]
                    omega
                  · cases closed
              · cases closed

theorem depth_steps {outline next : Outline} {lexemes : List Lexeme} (read : outline.steps lexemes = some next) :
    (depth next.stack : Int) = depth outline.stack + Lexeme.net lexemes := by
  induction lexemes generalizing outline with
  | nil => cases read; simp
  | cons lexeme rest ih =>
      obtain ⟨middle, first, later⟩ := Option.bind_eq_some_iff.mp read
      rw [ih later, depth_step first, Lexeme.net_cons, Int.add_assoc]

/-! ## Brackets that nothing opened -/

/-- Whether reading comes to a bracket that closes nothing. -/
def escapes (outline : Outline) : List Lexeme → Bool
  | [] => false
  | lexeme :: rest =>
      match outline.step lexeme with
      | some next => next.escapes rest
      | none => outline.stack.isEmpty && lexeme.turn == -1

variable {bracket : Bracket} {items : List Form} {outer : List (Opener × List Form)} {above : List Form}

theorem close_of_within {outline final : Outline} {b : Bracket}
    (read : (outline.within bracket items outer above).close b = some final) (stays : outline.stack ≠ []) :
    (outline.close b).isSome = true := by
  obtain ⟨stack, done⟩ := outline
  cases stack with
  | nil => exact absurd rfl stays
  | cons pending rest =>
      obtain ⟨opener, inner⟩ := pending
      cases opener with
      | quote => cases read
      | bracket opened =>
          by_cases right : opened = b
          · simp [close, right]
          · simp [close, within, right] at read

/-- What can be read inside a group can be read alone, unless it closes the group. -/
theorem step_of_within {outline final : Outline} {lexeme : Lexeme}
    (read : (outline.within bracket items outer above).step lexeme = some final)
    (stays : outline.stack = [] → lexeme.turn ≠ -1) : (outline.step lexeme).isSome = true := by
  cases lexeme with
  | word word =>
      obtain ⟨a, spelled, _⟩ := Option.map_eq_some_iff.mp read
      simp [step, spelled]
  | mark c =>
      unfold step at read ⊢
      dsimp only at read ⊢
      split
      · rfl
      · next noSpace =>
          rw [if_neg noSpace] at read
          split
          · rfl
          · next noQuote =>
              rw [if_neg noQuote] at read
              cases opening : Bracket.ofOpening? c with
              | some b => rfl
              | none =>
                  rw [opening] at read
                  obtain ⟨b, closing, closed⟩ := Option.bind_eq_some_iff.mp read
                  rw [closing]
                  refine close_of_within closed fun empty => stays empty ?_
                  simp [Lexeme.turn, opening, closing]
  | _ => rfl

theorem steps_of_within (outline : Outline) {final : Outline} {lexemes : List Lexeme}
    (read : (outline.within bracket items outer above).steps lexemes = some final)
    (contained : outline.escapes lexemes = false) :
    ∃ next, outline.steps lexemes = some next ∧ final = next.within bracket items outer above := by
  induction lexemes generalizing outline with
  | nil =>
      cases read
      exact ⟨outline, rfl, rfl⟩
  | cons lexeme rest ih =>
      obtain ⟨middle, first, later⟩ := Option.bind_eq_some_iff.mp read
      cases alone : outline.step lexeme with
      | none =>
          simp only [escapes, alone] at contained
          have some := step_of_within first (by simpa using contained)
          rw [alone] at some
          cases some
      | some next =>
          simp only [escapes, alone] at contained
          have inside : (outline.within bracket items outer above).step lexeme = _ := step_within alone
          obtain rfl : next.within bracket items outer above = middle := Option.some.inj (inside.symm.trans first)
          obtain ⟨last, stepped, isFinal⟩ := ih next later contained
          exact ⟨last, by rw [steps, alone]; exact stepped, isFinal⟩

end Reader.Outline

namespace Lexeme

variable {lexemes : List Lexeme}

theorem not_mem_of_plain {text : List Char} (plain : ∀ lexeme ∈ all text, lexeme.isPlain = true) {c : Char}
    (noSymbol : isSymbolChar c = false) (noMark : ['(', ')', '{', '}', ' ', '\n'].contains c = false) : c ∉ text := by
  intro member
  rw [← texts_all text] at member
  obtain ⟨lexeme, isLexeme, inside⟩ := List.mem_flatMap.mp member
  have isPlain := plain lexeme isLexeme
  cases lexeme with
  | mark d =>
      obtain rfl : c = d := by simpa [Lexeme.text] using inside
      rw [Lexeme.isPlain, noMark] at isPlain
      cases isPlain
  | word characters =>
      have symbol := List.all_eq_true.mp isPlain c inside
      rw [noSymbol] at symbol
      cases symbol
  | _ => cases isPlain

theorem closes_plain {text : List Char} (plain : ∀ lexeme ∈ all text, lexeme.isPlain = true) :
    closes lexemes text = false := by
  have noQuote : Text.closeQuote text = none := by
    rw [Option.eq_none_iff_forall_ne_some]
    rintro ⟨body, after⟩ closed
    exact @not_mem_of_plain text plain '"' (by decide) (by decide) (Text.closeQuote_text closed ▸ by simp)
  have noBar : closeBlock text = none := by
    rw [Option.eq_none_iff_forall_ne_some]
    rintro ⟨body, after⟩ closed
    exact @not_mem_of_plain text plain '|' (by decide) (by decide) (closeBlock_text closed ▸ by simp)
  unfold closes
  split
  · rw [noQuote]
    rfl
  · rw [noBar]
    rfl
  · rfl

theorem closes_indent (width : Nat) (text : List Char) :
    closes lexemes (List.replicate width ' ' ++ text) = closes lexemes text := by
  induction width with
  | zero => rfl
  | succ width ih =>
      rw [← ih, List.replicate_succ, List.cons_append]
      unfold closes
      split <;> simp [Text.closeQuote, closeBlock]

theorem indent_closes (width : Nat) (text later : List Char) :
    closes (all (List.replicate width ' ' ++ text)) later = closes (all text) later := by
  have space : (mark ' ').isStray = false := rfl
  have blanks : (List.replicate width (mark ' ')).dropWhile (!·.isStray) = [] := by simp [space]
  unfold closes
  rw [all_spaces, List.dropWhile_append, blanks]
  rfl

end Lexeme

namespace Harness

/-! ## The lines of the code -/

variable {width : Nat} {entries : List (List Char)} {value : List Char}

theorem net_pieces (readable : ∀ entry ∈ entries, ∃ forms, Form.read (String.ofList entry) = .ok forms) :
    Lexeme.net ((pieces width entries value).flatMap Lexeme.all) = Lexeme.net (Lexeme.all value) := by
  have four : "    ".toList = List.replicate 4 ' ' := rfl
  have two : "  ".toList = List.replicate 2 ' ' := rfl
  have given : Lexeme.net ((entries.map fun entry => List.replicate width ' ' ++ "  ".toList ++ entry).flatMap
      Lexeme.all) = 0 := by
    induction entries with
    | nil => rfl
    | cons entry rest ih =>
        obtain ⟨forms, read⟩ := readable entry (by simp)
        have alone := Outline.depth_steps (Form.read_ok_iff.mp read).1
        have here : Lexeme.net (Lexeme.all entry) = 0 := by
          have flat : (0 : Int) = 0 + Lexeme.net (Lexeme.all entry) := alone
          omega
        rw [List.map_cons, List.flatMap_cons, Lexeme.net_append,
          ih fun other member => readable other (by simp [member]), List.append_assoc, two, Lexeme.net_indent, Lexeme.net_indent, here]
        rfl
  have opening : Lexeme.net (Lexeme.all opening) = 2 := rfl
  have thunk : Lexeme.net (Lexeme.all "  :thunk (fn ()".toList) = 1 := rfl
  have closing : Lexeme.net (Lexeme.all closing) = -3 := rfl
  rw [pieces, List.flatMap_append, List.flatMap_append, Lexeme.net_append, Lexeme.net_append, given]
  simp only [List.flatMap_cons, List.flatMap_nil, List.append_nil, Lexeme.net_append, List.append_assoc, four,
    Lexeme.net_indent, opening, thunk, closing]
  omega

/-- A value that closes nothing outside of it is read alone as in its function. -/
theorem value_reads {outline final : Outline}
    (read : outline.steps ((pieces width entries value).flatMap Lexeme.all) = some final)
    (contained : Outline.initial.escapes (Lexeme.all value) = false) :
    ∃ next, Outline.initial.steps (Lexeme.all value) = some next ∧
      (Outline.depth next.stack = 0 → next.stack = []) := by
  have four : "    ".toList = List.replicate 4 ' ' := rfl
  rw [pieces, List.flatMap_append, Outline.steps_append] at read
  obtain ⟨before, _, read⟩ := Option.bind_eq_some_iff.mp read
  rw [List.flatMap_cons, Outline.steps_append, steps_thunk, Option.bind_some, List.flatMap_cons, Outline.steps_append]
    at read
  obtain ⟨inner, isInner, closes⟩ := Option.bind_eq_some_iff.mp read
  rw [List.append_assoc, four, Outline.steps_indent, Outline.steps_indent] at isInner
  obtain ⟨next, stepped, rfl⟩ := Outline.initial.steps_of_within isInner contained
  refine ⟨next, stepped, fun flat => ?_⟩
  -- A quotation with nothing behind it cannot be closed.
  rw [List.flatMap_singleton, Outline.steps_indent] at closes
  obtain ⟨stack, done⟩ := next
  cases stack with
  | nil => rfl
  | cons pending rest =>
      obtain ⟨opener, items⟩ := pending
      cases opener with
      | quote => cases closes
      | bracket bracket => simp at flat

theorem pieces_steps {body : List Form}
    (readable : ∀ entry ∈ entries, ∃ forms, Form.read (String.ofList entry) = .ok forms)
    (closed : ∀ piece ∈ pieces width entries value, ∀ lexeme ∈ Lexeme.all piece, lexeme.isStray = false)
    (read : Outline.initial.steps (Lexeme.all value) = some ⟨[], body.reverse⟩) (done : List Form) :
    Outline.steps ⟨[], done⟩ ((pieces width entries value).flatMap Lexeme.all) =
      some ⟨[], enqueueForm (entries.flatMap Form.ofText) body :: done⟩ := by
  have alone : Outline.initial.steps ((pieces width entries value).flatMap Lexeme.all) =
      some ⟨[], [enqueueForm (entries.flatMap Form.ofText) body]⟩ := by
    rw [← Outline.steps_joinLines closed, ← enqueue_eq]
    exact enqueue_steps width entries readable read
  exact Outline.steps_onto alone done

theorem even_of_enqueueForm {given body : List Form} (even : (enqueueForm given body).isEven = true) :
    Form.areEven body = true := by
  simp only [enqueueForm, Form.isEven, Form.areEven, Form.areEven_append, Bool.and_eq_true] at even
  simp [even]

/-! ## Maps in a row -/

/-- The lexemes of the code that puts maps with the given entries and bodies of functions into the queue. -/
def lexemes (width : Nat) (blocks : List (List (List Char) × List Char)) : List Lexeme :=
  blocks.flatMap fun block => (pieces width block.1 block.2).flatMap Lexeme.all

theorem depth_lexemes {blocks : List (List (List Char) × List Char)} {outline final : Outline}
    (readable : ∀ block ∈ blocks, ∀ entry ∈ block.1, ∃ forms, Form.read (String.ofList entry) = .ok forms)
    (contained : ∀ block ∈ blocks, Outline.initial.escapes (Lexeme.all block.2) = false)
    (read : outline.steps (lexemes width blocks) = some final) :
    Outline.depth outline.stack ≤ Outline.depth final.stack := by
  induction blocks generalizing outline with
  | nil =>
      cases read
      exact Nat.le_refl _
  | cons block rest ih =>
      obtain ⟨readableHere, readableLater⟩ := List.forall_mem_cons.mp readable
      obtain ⟨containedHere, containedLater⟩ := List.forall_mem_cons.mp contained
      rw [lexemes, List.flatMap_cons, Outline.steps_append] at read
      obtain ⟨middle, here, later⟩ := Option.bind_eq_some_iff.mp read
      obtain ⟨next, alone, _⟩ := value_reads here containedHere
      have grown := Outline.depth_steps here
      have opened : (Outline.depth next.stack : Int) = 0 + Lexeme.net (Lexeme.all block.2) := Outline.depth_steps alone
      have behind := ih readableLater containedLater later
      rw [net_pieces readableHere] at grown
      omega

/-- Bodies that close nothing outside of them are programs when the code is one. -/
theorem bodies_read {blocks : List (List (List Char) × List Char)} {done forms : List Form}
    (readable : ∀ block ∈ blocks, ∀ entry ∈ block.1, ∃ forms, Form.read (String.ofList entry) = .ok forms)
    (closed : ∀ block ∈ blocks, ∀ piece ∈ pieces width block.1 block.2, ∀ lexeme ∈ Lexeme.all piece,
      lexeme.isStray = false)
    (contained : ∀ block ∈ blocks, Outline.initial.escapes (Lexeme.all block.2) = false)
    (read : Outline.steps ⟨[], done⟩ (lexemes width blocks) = some ⟨[], forms⟩)
    (even : ∀ form ∈ forms, form.isEven = true) :
    (∀ form ∈ done, form.isEven = true) ∧
      ∀ block ∈ blocks, ∃ body, Form.read (String.ofList block.2) = .ok body := by
  induction blocks generalizing done with
  | nil =>
      cases read
      exact ⟨even, fun _ member => absurd member List.not_mem_nil⟩
  | cons block rest ih =>
      obtain ⟨readableHere, readableLater⟩ := List.forall_mem_cons.mp readable
      obtain ⟨closedHere, closedLater⟩ := List.forall_mem_cons.mp closed
      obtain ⟨containedHere, containedLater⟩ := List.forall_mem_cons.mp contained
      rw [lexemes, List.flatMap_cons, Outline.steps_append] at read
      obtain ⟨middle, here, later⟩ := Option.bind_eq_some_iff.mp read
      -- No group is open behind the first map, as later maps close none.
      obtain ⟨⟨stack, inner⟩, alone, settled⟩ := value_reads here containedHere
      have flat : Outline.depth stack = 0 := by
        have bound : Outline.depth middle.stack ≤ 0 := depth_lexemes readableLater containedLater later
        have grown := Outline.depth_steps here
        have opened : (Outline.depth stack : Int) = 0 + Lexeme.net (Lexeme.all block.2) := Outline.depth_steps alone
        rw [net_pieces readableHere] at grown
        have ground : Outline.depth (Outline.mk [] done).stack = 0 := rfl
        omega
      obtain rfl : stack = [] := settled flat
      obtain ⟨body, rfl⟩ : ∃ body : List Form, inner = body.reverse := ⟨inner.reverse, (List.reverse_reverse _).symm⟩
      rw [pieces_steps readableHere closedHere alone] at here
      cases here
      obtain ⟨evenDone, others⟩ := ih readableLater closedLater containedLater later
      obtain ⟨evenHere, evenBefore⟩ := List.forall_mem_cons.mp evenDone
      exact ⟨evenBefore, List.forall_mem_cons.mpr
        ⟨⟨body, Form.read_ok_iff.mpr ⟨alone, even_of_enqueueForm evenHere⟩⟩, others⟩⟩

theorem front_plain (width : Nat)
    (plain : ∀ entry ∈ entries, ∀ lexeme ∈ Lexeme.all entry, lexeme.isPlain = true) :
    ∀ piece ∈ front width entries, ∀ lexeme ∈ Lexeme.all piece, lexeme.isPlain = true := by
  intro piece member
  refine @forall_enqueue_line entries [] _ width (fun _ isPlain => isPlain) plain (by simp [Lexeme.all_nil]) piece ?_
  rw [pieces_eq]
  exact List.mem_append_left _ member

theorem back_plain (width : Nat) : ∀ lexeme ∈ Lexeme.all (back width), lexeme.isPlain = true :=
  Lexeme.forall_indent width rfl (by decide)

/-- Lines of the code stay apart when the bodies do: nothing in the other lines is left open or closes anything. -/
theorem pieces_apart {blocks : List (List (List Char) × List Char)}
    (plain : ∀ block ∈ blocks, ∀ entry ∈ block.1, ∀ lexeme ∈ Lexeme.all entry, lexeme.isPlain = true)
    (apart : blocks.Pairwise fun block later => Lexeme.closes (Lexeme.all block.2) later.2 = false) :
    (blocks.flatMap fun block => pieces width block.1 block.2).Pairwise fun piece later =>
      Lexeme.closes (Lexeme.all piece) later = false := by
  have closed {piece : List Char} (isPlain : ∀ lexeme ∈ Lexeme.all piece, lexeme.isPlain = true) :=
    Lexeme.closes_of_closed fun lexeme member => Lexeme.not_stray_of_plain (isPlain lexeme member)
  refine List.pairwise_flatMap.mpr ⟨fun block isBlock => ?_, apart.imp_of_mem fun isBlock isLater stays => ?_⟩
  · rw [pieces_eq]
    have plainFront := front_plain width (plain block isBlock)
    refine List.pairwise_append.mpr ⟨?_, List.pairwise_pair.mpr (Lexeme.closes_plain (back_plain width)), ?_⟩
    · exact List.pairwise_of_forall_mem_list fun piece isPiece later _ => closed (plainFront piece isPiece) later
    · exact fun piece isPiece later _ => closed (plainFront piece isPiece) later
  · rw [pieces_eq, pieces_eq]
    intro piece isPiece later isPieceLater
    simp only [List.mem_append, List.mem_cons, List.not_mem_nil, or_false] at isPiece isPieceLater
    rcases isPiece with inFront | rfl | rfl
    · exact closed (front_plain width (plain _ isBlock) piece inFront) later
    · rcases isPieceLater with inFront' | rfl | rfl
      · exact Lexeme.closes_plain (front_plain width (plain _ isLater) later inFront')
      · rw [Lexeme.indent_closes, Lexeme.closes_indent]
        exact stays
      · exact Lexeme.closes_plain (back_plain width)
    · exact closed (back_plain width) later

end Harness

/-! ## Examples -/

namespace Example

def texts (e : Example) : List (List Char) := e.input.value :: e.output.toList.map (·.value)

/-- No text closes a string or block comment that an earlier one leaves open. -/
def Apart (e : Example) : Prop :=
  e.texts.Pairwise fun text later => Lexeme.closes (Lexeme.all text) later = false

/-- No text closes a bracket that it did not open, or the texts do not open as many brackets as they close. -/
def Contained (e : Example) : Prop :=
  (∀ text ∈ e.texts, Outline.initial.escapes (Lexeme.all text) = false) ∨ Lexeme.net (e.texts.flatMap Lexeme.all) ≠ 0

instance (e : Example) : Decidable e.Apart := inferInstanceAs (Decidable (List.Pairwise _ _))

instance (e : Example) : Decidable e.Contained := inferInstanceAs (Decidable (_ ∨ _))

end Example

namespace Harness

/-- The maps that the code for an example puts into the queue: their entries, and the texts of their functions. -/
def blocks (e : Example) : List (List (List Char) × List Char) :=
  ([":type :input".toList], e.input.value) :: e.output.toList.map fun output =>
    ([":type :output".toList, ":line ".toList ++ Decimal.natDigits output.span.start.line,
      ":negate ".toList ++ (if e.negate then "true".toList else "false".toList)], output.value)

theorem blocks_texts (e : Example) : (blocks e).map (·.2) = e.texts := by
  rw [blocks, Example.texts, List.map_cons, List.map_map]
  rfl

theorem blocks_read (e : Example) :
    ∀ block ∈ blocks e, ∀ entry ∈ block.1, ∃ forms, Form.read (String.ofList entry) = .ok forms := by
  refine List.forall_mem_cons.mpr ⟨List.forall_mem_singleton.mpr ⟨_, read_type "input" _ (.inl ⟨rfl, rfl⟩)⟩, ?_⟩
  exact List.forall_mem_map.mpr fun output _ => outputEntries_read _ _

theorem blocks_plain (e : Example) :
    ∀ block ∈ blocks e, ∀ entry ∈ block.1, ∀ lexeme ∈ Lexeme.all entry, lexeme.isPlain = true := by
  refine List.forall_mem_cons.mpr ⟨List.forall_mem_singleton.mpr (by decide), ?_⟩
  exact List.forall_mem_map.mpr fun output _ => outputEntries_plain _ _

theorem code_eq (width : Nat) {e : Example} (isTest : isDeclaration e.input.value = false) :
    code width e = Text.joinLines ((blocks e).flatMap fun block => pieces width block.1 block.2) := by
  have some (block : List (List Char) × List Char) : pieces width block.1 block.2 ≠ [] := by simp [pieces]
  rw [Text.joinLines_flatMap _ fun block _ => some block]
  unfold code blocks
  dsimp only
  rw [if_neg (Bool.eq_false_iff.mp isTest)]
  cases e.output <;> rfl

theorem net_lexemes {blocks : List (List (List Char) × List Char)}
    (readable : ∀ block ∈ blocks, ∀ entry ∈ block.1, ∃ forms, Form.read (String.ofList entry) = .ok forms) :
    Lexeme.net (lexemes width blocks) = Lexeme.net ((blocks.map (·.2)).flatMap Lexeme.all) := by
  induction blocks with
  | nil => rfl
  | cons block rest ih =>
      obtain ⟨here, later⟩ := List.forall_mem_cons.mp readable
      rw [lexemes, List.flatMap_cons, Lexeme.net_append, net_pieces here, List.map_cons, List.flatMap_cons,
        Lexeme.net_append, ← ih later]
      rfl

theorem readable_of_code {e : Example} {forms : List Form} (isTest : isDeclaration e.input.value = false)
    (apart : e.Apart) (contained : e.Contained) (read : Form.read (String.ofList (code width e)) = .ok forms) :
    Readable e := by
  obtain ⟨steps, even⟩ := Form.read_ok_iff.mp read
  rw [code_eq width isTest] at steps
  have apartBlocks : (blocks e).Pairwise fun block later => Lexeme.closes (Lexeme.all block.2) later.2 = false := by
    rw [Example.Apart, ← blocks_texts] at apart
    exact List.pairwise_map.mp apart
  have closed := Lexeme.closed_of_joinLines (pieces_apart (blocks_plain e) apartBlocks) (Outline.steps_not_stray steps)
  rw [Outline.steps_joinLines closed, List.flatMap_assoc] at steps
  have balanced : Lexeme.net (e.texts.flatMap Lexeme.all) = 0 := by
    have flat : (0 : Int) = 0 + Lexeme.net (lexemes width (blocks e)) := Outline.depth_steps steps
    rw [net_lexemes (blocks_read e), blocks_texts] at flat
    omega
  have contains : ∀ text ∈ e.texts, Outline.initial.escapes (Lexeme.all text) = false :=
    contained.resolve_right (not_not.mpr balanced)
  rw [← blocks_texts, List.forall_mem_map] at contains
  have evenForms : ∀ form ∈ forms.reverse, form.isEven = true := by
    simpa [Form.areEven_iff] using even
  have bodies := (bodies_read (blocks_read e)
    (fun block isBlock piece isPiece => closed piece (List.mem_flatMap.mpr ⟨block, isBlock, isPiece⟩))
    contains steps evenForms).2
  have programs : ∀ text ∈ e.texts, ∃ forms, Form.read (String.ofList text) = .ok forms := by
    rw [← blocks_texts, List.forall_mem_map]
    exact bodies
  obtain ⟨input, outputs⟩ := List.forall_mem_cons.mp programs
  exact ⟨input, fun output isOutput => List.forall_mem_map.mp outputs output (Option.mem_toList.mpr isOutput)⟩

end Harness

end Exemplar
