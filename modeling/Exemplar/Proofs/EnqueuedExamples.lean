import Exemplar.Entry
import Exemplar.Proofs.Coinciding
import Exemplar.Proofs.ExampleCode
import Exemplar.Proofs.Scopes
import Mathlib.Data.List.Forall2

/-!
# Examples in the queue

The code for an example puts one entry for each of its parts into the queue and changes nothing else. The entries read
back as what the code was made from, and their functions evaluate the forms of the part in a frame of their own.
-/

namespace Exemplar

namespace Eval

/-- The function evaluates the forms as a body in a new frame inside frame `scope`, one call deeper. -/
def Delays (scope : Nat) (forms : List Form) (thunk : Value) : Prop :=
  ∀ s : Store, s.depth < s.limit →
    (apply thunk []).run.run s = (do nested (program (← child scope []) forms)).run.run s

theorem run_nested {α : Type} (x : Eval α) (s : Store) :
    (nested x).run.run s = ((x.run.run s.descend).1, (x.run.run s.descend).2.ascend) := rfl

/-- A function without parameters delays its body. -/
theorem delays_closure (id scope : Nat) (name : Option String) (forms : List Form) :
    Delays scope forms (.closure ⟨id, name, [], none, forms, scope⟩) := by
  intro s inside
  obtain ⟨room, more⟩ : ∃ room, s.room = room + 1 := ⟨s.room - 1, by unfold Store.room; omega⟩
  have called : (apply (.closure ⟨id, name, [], none, forms, scope⟩) []).run.run s =
      (do nested (body (applyAt room) (← child scope []) .nil forms)).run.run s := by
    change (applyAt s.room (.closure ⟨id, name, [], none, forms, scope⟩) []).run.run s = _
    rw [more]
    rfl
  have deeper : (s.child scope []).descend.room = room := by
    simp only [Store.room, Store.child, Store.descend] at more ⊢
    omega
  have evaluated (frame : Nat) : (program frame forms).run.run (s.child scope []).descend =
      (body (applyAt room) frame .nil forms).run.run (s.child scope []).descend := by
    rw [← deeper]
    rfl
  have opened : (child scope []).run.run s = (.ok s.frames.size, s.child scope []) := rfl
  rw [called, run_bind, run_bind, opened]
  dsimp only
  rw [run_nested, run_nested, evaluated]

section

variable (call : Caller) (scope : Nat)

theorem form_keyword (name : String) : form call scope (.atom (.keyword name)) = pure (.keyword name) := by
  rw [form]
  rfl

theorem entries_literal (key : String) {x : Form} {value : Value} (literal : form call scope x = pure value)
    (written : List (Key × Value)) (rest : List Form) :
    entries call scope written (.atom (.keyword key) :: x :: rest) =
      entries call scope (Keyed.insert (.keyword key) value written) rest := by
  rw [entries, form_keyword, literal]
  rfl

theorem run_thunk (forms : List Form) (s : Store) :
    (form call scope (.group .round (.atom (.symbol "fn") :: .group .round [] :: forms))).run.run s =
      (.ok (.closure ⟨s.closures, none, [], none, forms, scope⟩), s.countClosure) := by
  have special : (Form.atom (.symbol "fn")).symbol?.bind Special.ofName? = some .lambda := by decide
  rw [form.eq_def]
  simp only [special]
  rfl

end

end Eval

namespace Harness

open Eval

/-- The map that the call for a part of an example puts into the queue. -/
def entryMap (pairs : List (Key × Value)) (forms : List Form) (scope id : Nat) : Value :=
  .map (Keyed.insert (.keyword "thunk") (.closure ⟨id, none, [], none, forms, scope⟩) pairs)

/-- The call for a part of an example appends its map to the queue and counts one function more. -/
theorem run_enqueueForm (room : Nat) {scope q : Nat} {s : Store}
    (native : s.lookup? scope "enqueue!" = some (.native .enqueue))
    (bound : s.lookup? scope queueName = some (.queue q)) {given : List Form} (even : given.length % 2 = 0)
    {pairs : List (Key × Value)}
    (literal : ∀ rest, entries (applyAt room) scope [] (given ++ rest) = entries (applyAt room) scope pairs rest)
    (forms : List Form) :
    (form (applyAt room) scope (enqueueForm given forms)).run.run s =
      (.ok .nil, s.countClosure.enqueue q (entryMap pairs forms scope s.closures)) := by
  have notSpecial : (Form.atom (.symbol "enqueue!")).symbol?.bind Special.ofName? = none := by decide
  have last : (entries (applyAt room) scope pairs [.atom (.keyword "thunk"),
      .group .round (.atom (.symbol "fn") :: .group .round [] :: forms)]).run.run s =
      (.ok (Keyed.insert (.keyword "thunk") (.closure ⟨s.closures, none, [], none, forms, scope⟩) pairs),
        s.countClosure) := by
    rw [entries, form_keyword, pure_bind]
    change (do
      let v ← form (applyAt room) scope (.group .round (.atom (.symbol "fn") :: .group .round [] :: forms))
      entries (applyAt room) scope (Keyed.insert (.keyword "thunk") v pairs) [] : Eval _).run.run s = _
    rw [run_bind, run_thunk]
    dsimp only
    rw [entries]
    rfl
  have map : (form (applyAt room) scope (.group .curly (given ++ [.atom (.keyword "thunk"),
      .group .round (.atom (.symbol "fn") :: .group .round [] :: forms)]))).run.run s =
      (.ok (entryMap pairs forms scope s.closures), s.countClosure) := by
    have evenAll (key thunk : Form) : (given ++ [key, thunk]).length % 2 = 0 := by
      rw [List.length_append, List.length_cons, List.length_singleton]
      omega
    rw [form, if_pos (evenAll _ _), literal, run_bind, last]
    rfl
  have args : (list (applyAt room) scope [.atom (.symbol queueName), .group .curly (given ++ [.atom (.keyword "thunk"),
      .group .round (.atom (.symbol "fn") :: .group .round [] :: forms)])]).run.run s =
      (.ok [.queue q, entryMap pairs forms scope s.closures], s.countClosure) := by
    rw [list, run_bind, run_symbol _ bound]
    dsimp only
    rw [run_bind, list, run_bind, map]
    dsimp only
    rw [list]
    rfl
  rw [enqueueForm, form.eq_def]
  simp only [notSpecial]
  rw [run_bind, run_symbol _ native]
  dsimp only
  rw [run_bind, args]
  dsimp only
  rw [applyAt_native]
  rfl

/-- The value reads as an entry whose function delays the forms of the text. -/
def Holds (value : Value) (isOutput : Bool) (line : Option Nat) (negate : Bool) (scope : Nat) (text : List Char) :
    Prop :=
  ∃ thunk, Entry.decode value = .ok ⟨isOutput, thunk, line, negate⟩ ∧ Delays scope (Form.ofText text) thunk

/-- What the map for an input holds beside its function. -/
def inputPairs : List (Key × Value) := [(.keyword "type", .keyword "input")]

/-- What the map for an expected result holds beside its function. -/
def outputPairs (line : Nat) (negate : Bool) : List (Key × Value) :=
  Keyed.insert (.keyword "negate") (.bool negate)
    (Keyed.insert (.keyword "line") (.number (Decimal.read false (Decimal.natDigits line) []))
      [(.keyword "type", .keyword "output")])

theorem inputPairs_holds (scope id : Nat) (text : List Char) :
    Holds (entryMap inputPairs (Form.ofText text) scope id) false none false scope text :=
  ⟨_, rfl, delays_closure id scope none (Form.ofText text)⟩

theorem outputPairs_holds (scope id : Nat) (text : List Char) (negate : Bool) {line : Nat}
    (whole : Entry.lineOf (Decimal.read false (Decimal.natDigits line) []) = line) :
    Holds (entryMap (outputPairs line negate) (Form.ofText text) scope id) true (some line) negate scope text := by
  have read : Entry.decode (entryMap (outputPairs line negate) (Form.ofText text) scope id) =
      .ok ⟨true, .closure ⟨id, none, [], none, Form.ofText text, scope⟩,
        some (Entry.lineOf (Decimal.read false (Decimal.natDigits line) [])), negate⟩ := by
    cases negate <;> rfl
  rw [whole] at read
  exact ⟨_, read, delays_closure id scope none (Form.ofText text)⟩

section

variable (room : Nat) {scope q : Nat} {s : Store} (native : s.lookup? scope "enqueue!" = some (.native .enqueue))
  (bound : s.lookup? scope queueName = some (.queue q)) (forms : List Form)

include native bound

theorem run_inputForm :
    (form (applyAt room) scope (inputForm forms)).run.run s =
      (.ok .nil, s.countClosure.enqueue q (entryMap inputPairs forms scope s.closures)) := by
  apply run_enqueueForm room native bound (by simp)
  intro rest
  exact entries_literal _ scope "type" (form_keyword _ scope "input") [] rest

theorem run_outputForm (line : Nat) (negate : Bool) :
    (form (applyAt room) scope (outputForm line negate forms)).run.run s =
      (.ok .nil, s.countClosure.enqueue q (entryMap (outputPairs line negate) forms scope s.closures)) := by
  have literal (a : Atom) {value : Value} (plain : atom scope a = pure value) :
      form (applyAt room) scope (.atom a) = pure value := by rw [form, plain]
  apply run_enqueueForm room native bound (by simp)
  intro rest
  change entries _ scope [] (.atom (.keyword "type") :: .atom (.keyword "output") :: _) = _
  rw [entries_literal _ scope "type" (literal (.keyword "output") rfl)]
  change entries _ scope _ (.atom (.keyword "line") :: .atom (.number _) :: _) = _
  rw [entries_literal _ scope "line" (literal (.number _) rfl)]
  change entries _ scope _ (.atom (.keyword "negate") :: .atom (.bool negate) :: rest) = _
  rw [entries_literal _ scope "negate" (literal (.bool negate) rfl)]
  rfl

end

theorem enqueued (s : Store) {q : Nat} (present : q < s.queues.size) (value : Value) :
    (∀ p, p ≠ q → (s.countClosure.enqueue q value).queue p = s.queue p) ∧
      (s.countClosure.enqueue q value).queue q = s.queue q ++ [value] ∧
      (s.countClosure.enqueue q value).queues.size = s.queues.size := by
  refine ⟨fun p other => ?_, ?_, ?_⟩
  · rw [Store.queue_enqueue, if_neg fun both => other both.1]
    rfl
  · rw [Store.queue_enqueue, if_pos ⟨rfl, present⟩]
    rfl
  · rw [Store.enqueue, Array.size_modify]
    rfl

theorem run_body_cons {call : Caller} {scope : Nat} {x : Form} {value : Value} {s t : Store}
    (ran : (form call scope x).run.run s = (.ok value, t)) (last : Value) (rest : List Form) :
    (body call scope last (x :: rest)).run.run s = (body call scope value rest).run.run t := by
  rw [body, run_bind, ran]

/-- The code for an example that is no declaration reads as one call for each of its parts. They raise nothing, append
one entry each to the queue, in order, and change nothing else but the count of functions. The entries read back as an
input and as an expected result with its line and sign, and their functions delay the forms of the two texts. -/
theorem code_enqueues (width : Nat) {e : Example} (plain : isDeclaration e.input.value = false)
    (readable : Readable e)
    (whole : ∀ output ∈ e.output,
      Entry.lineOf (Decimal.read false (Decimal.natDigits output.span.start.line) []) = output.span.start.line)
    {s : Store} {scope q : Nat} (native : s.lookup? scope "enqueue!" = some (.native .enqueue))
    (bound : s.lookup? scope queueName = some (.queue q)) (present : q < s.queues.size) :
    ∃ forms input outputs t, Form.read (String.ofList (code width e)) = .ok forms ∧
      (program scope forms).run.run s = (.ok .nil, t) ∧
      t = { s with queues := t.queues, closures := t.closures } ∧
      t.queues.size = s.queues.size ∧ (∀ p, p ≠ q → t.queue p = s.queue p) ∧
      t.queue q = s.queue q ++ input :: outputs ∧ forms.length = (input :: outputs).length ∧
      Holds input false none false scope e.input.value ∧
      List.Forall₂ (fun value output => Holds value true (some output.span.start.line) e.negate scope output.value)
        outputs e.output.toList := by
  have read := code_reads width readable
  have first := run_inputForm s.room native bound (Form.ofText e.input.value)
  obtain ⟨others, appended, size⟩ := enqueued s present (entryMap inputPairs (Form.ofText e.input.value) scope s.closures)
  have input := inputPairs_holds scope s.closures e.input.value
  rw [forms, if_neg (by simp [plain])] at read
  generalize entryMap inputPairs (Form.ofText e.input.value) scope s.closures = v at first others appended size input
  cases output : e.output with
  | none =>
      rw [output] at read
      exact ⟨_, v, [], _, read, run_body_cons first .nil [], rfl, size, others, appended, rfl, input, .nil⟩
  | some fragment =>
      rw [output] at read
      have second := run_outputForm (s := s.countClosure.enqueue q v) s.room native bound
        (Form.ofText fragment.value) fragment.span.start.line e.negate
      have expected := outputPairs_holds scope (s.countClosure.enqueue q v).closures fragment.value e.negate
        (whole fragment output)
      generalize entryMap (outputPairs fragment.span.start.line e.negate) (Form.ofText fragment.value) scope
        (s.countClosure.enqueue q v).closures = w at second expected
      obtain ⟨others', appended', size'⟩ := enqueued (s.countClosure.enqueue q v) (size ▸ present) w
      rw [appended, List.append_assoc] at appended'
      have ran := (run_body_cons first .nil _).trans (run_body_cons second .nil [])
      exact ⟨_, v, [w], _, read, ran, rfl, size'.trans size, fun p other => (others' p other).trans (others p other),
        appended', rfl, input, .cons expected .nil⟩

/-- Two forms with a string over two lines and a comment at the end, and an error that should be raised, in a frame inside
the one that binds the queue. -/
theorem code_enqueues_error :
    ∃ e : Example, e = ⟨3, true, ⟨"(f \"a\nb\") 2 ; two".toList, .ofLine 6⟩,
        some ⟨"(error \"E\" \"\")".toList, .ofLine 8⟩⟩ ∧
      ∃ s : Store, s = (((Store.empty.addQueue).define 0 "enqueue!" (.native .enqueue)).define 0 queueName
        (.queue 0)).child 0 [] ∧
      ∃ forms input output t, Form.read (String.ofList (code 2 e)) = .ok forms ∧
        (program 1 forms).run.run s = (.ok .nil, t) ∧ t.frames = s.frames ∧ t.queue 0 = [input, output] ∧
        Holds input false none false 1 e.input.value ∧
        Holds output true (some 8) true 1 "(error \"E\" \"\")".toList := by
  refine ⟨_, rfl, _, rfl, ?_⟩
  obtain ⟨forms, input, outputs, t, read, ran, same, _, _, appended, _, first, second⟩ :=
    code_enqueues (e := ⟨3, true, ⟨"(f \"a\nb\") 2 ; two".toList, .ofLine 6⟩,
        some ⟨"(error \"E\" \"\")".toList, .ofLine 8⟩⟩)
      (s := (((Store.empty.addQueue).define 0 "enqueue!" (.native .enqueue)).define 0 queueName (.queue 0)).child 0 [])
      2 rfl ⟨⟨_, rfl⟩, fun output same => by cases same; exact ⟨_, rfl⟩⟩ (fun output same => by cases same; decide)
      (show Store.lookup? _ 1 "enqueue!" = some (.native .enqueue) from rfl)
      (show Store.lookup? _ 1 queueName = some (.queue 0) from rfl) (by decide)
  cases second with
  | cons holds rest =>
      cases rest
      exact ⟨forms, input, _, t, read, ran, by rw [same], appended, first, holds⟩

end Harness

end Exemplar
