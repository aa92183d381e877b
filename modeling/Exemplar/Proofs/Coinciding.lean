import Exemplar.Eval

/-!
# Computations that coincide

Two computations coincide from related stores when they come to the same outcome and to related stores again, unless
the first raises a value that counts as an escape. Evaluation with two ways to call coincides wherever the calls do. With
equal stores this says what evaluation keeps.
-/

namespace Exemplar

/-- A relation of stores that show evaluation the same, and that everything but a call of a function keeps. -/
structure Store.Bisimulation (related : Store → Store → Prop) : Prop where
  lookup {s t : Store} (f : Nat) (name : String) : related s t → s.lookup? f name = t.lookup? f name
  frames {s t : Store} : related s t → s.frames.size = t.frames.size
  queues {s t : Store} : related s t → s.queues.size = t.queues.size
  closures {s t : Store} : related s t → s.closures = t.closures
  child {s t : Store} (f : Nat) (bindings : List (String × Value)) :
    related s t → related (s.child f bindings) (t.child f bindings)
  define {s t : Store} (f : Nat) (name : String) (value : Value) :
    related s t → related (s.define f name value) (t.define f name value)
  assign {s t : Store} (f : Nat) (name : String) (value : Value) :
    related s t → related (s.assign f name value) (t.assign f name value)
  addQueue {s t : Store} : related s t → related s.addQueue t.addQueue
  enqueue {s t : Store} (q : Nat) (value : Value) : related s t → related (s.enqueue q value) (t.enqueue q value)
  publish {s t : Store} (name : String) (value : Value) :
    related s t → related (s.publish name value) (t.publish name value)
  countClosure {s t : Store} : related s t → related s.countClosure t.countClosure

/-- From related stores two computations come to the same outcome and to related stores, unless the first escapes. -/
def Coincide {α : Type} (related : Store → Store → Prop) (escape : Value → Prop) (x y : Eval α) : Prop :=
  ∀ s t, related s t →
    (∃ raised, (x.run.run s).1 = .error raised ∧ escape raised) ∨
      (x.run.run s).1 = (y.run.run t).1 ∧ related (x.run.run s).2 (y.run.run t).2

variable {related : Store → Store → Prop} {escape : Value → Prop}

namespace Coincide

variable {α β : Type}

theorem pure (a : α) : Coincide related escape (Pure.pure a) (Pure.pure a) :=
  fun _ _ alike => .inr ⟨rfl, alike⟩

theorem throw (raised : Value) : Coincide (α := α) related escape (MonadExcept.throw raised) (MonadExcept.throw raised) :=
  fun _ _ alike => .inr ⟨rfl, alike⟩

theorem ofOutcome (outcome : Except Value α) :
    Coincide related escape (Eval.ofOutcome outcome) (Eval.ofOutcome outcome) := by
  cases outcome with
  | ok a => exact pure a
  | error raised => exact throw raised

theorem update {f g : Store → Store} (keeps : ∀ s t, related s t → related (f s) (g t)) :
    Coincide related escape (modify f) (modify g) :=
  fun s t alike => .inr ⟨rfl, keeps s t alike⟩

theorem updateGet {f g : Store → α × Store}
    (keeps : ∀ s t, related s t → (f s).1 = (g t).1 ∧ related (f s).2 (g t).2) :
    Coincide related escape (modifyGet f) (modifyGet g) :=
  fun s t alike => .inr ⟨congrArg Except.ok (keeps s t alike).1, (keeps s t alike).2⟩

theorem bind {x y : Eval α} {f g : α → Eval β} (first : Coincide related escape x y)
    (next : ∀ a, Coincide related escape (f a) (g a)) : Coincide related escape (x >>= f) (y >>= g) := by
  intro s t alike
  rw [Eval.run_bind, Eval.run_bind]
  rcases first s t alike with ⟨raised, ended, escaped⟩ | ⟨same, alike'⟩
  · refine .inl ⟨raised, ?_, escaped⟩
    generalize x.run.run s = left at ended
    obtain ⟨outcome, s'⟩ := left
    cases ended
    rfl
  · generalize x.run.run s = left at same alike'
    generalize y.run.run t = right at same alike'
    obtain ⟨outcome, s'⟩ := left
    obtain ⟨outcome', t'⟩ := right
    cases same
    cases outcome with
    | ok a => exact next a s' t' alike'
    | error raised => exact .inr ⟨rfl, alike'⟩

/-- Computations that coincide on equal stores are equal. -/
theorem eq {x y : Eval α} (coincide : Coincide Eq (fun _ => False) x y) : x = y := by
  apply ExceptT.ext
  apply StateT.ext
  intro s
  rcases coincide s s rfl with ⟨_, _, impossible⟩ | ⟨outcome, store⟩
  · exact impossible.elim
  · exact Prod.ext outcome store

end Coincide

theorem Store.Bisimulation.refl : Store.Bisimulation Eq where
  lookup f name same := by rw [same]
  frames same := by rw [same]
  queues same := by rw [same]
  closures same := by rw [same]
  child f bindings same := by rw [same]
  define f name value same := by rw [same]
  assign f name value same := by rw [same]
  addQueue same := by rw [same]
  enqueue q value same := by rw [same]
  publish name value same := by rw [same]
  countClosure same := by rw [same]

/-! ## Native functions -/

section

variable {call call' : Caller} {f : Value}

theorem mapItems_coincide (calls : ∀ x, Coincide related escape (call f [x]) (call' f [x])) (items : List Value) :
    Coincide related escape (Eval.mapItems call f items) (Eval.mapItems call' f items) := by
  induction items with
  | nil => exact .pure []
  | cons x rest ih => exact .bind (calls x) fun y => .bind ih fun ys => .pure (y :: ys)

theorem filterItems_coincide (calls : ∀ x, Coincide related escape (call f [x]) (call' f [x])) (items : List Value) :
    Coincide related escape (Eval.filterItems call f items) (Eval.filterItems call' f items) := by
  induction items with
  | nil => exact .pure []
  | cons x rest ih => exact .bind (calls x) fun keep => .bind ih fun kept => .pure _

theorem reduceItems_coincide (calls : ∀ result x, Coincide related escape (call f [result, x]) (call' f [result, x]))
    (items : List Value) (result : Value) :
    Coincide related escape (Eval.reduceItems call f result items) (Eval.reduceItems call' f result items) := by
  induction items generalizing result with
  | nil => exact .pure result
  | cons x rest ih => exact .bind (calls result x) fun next => ih next

end

/-- Native functions coincide when the calls do that they can make: calls with fewer arguments than their own, and with
fewer than three. -/
theorem Native.run_coincide (bisim : Store.Bisimulation related) {call call' : Caller} (f : Native) (args : List Value)
    (calls : ∀ g given, given.length < args.length → given.length < 3 →
      Coincide related escape (call g given) (call' g given)) :
    Coincide related escape (f.run call args) (f.run call' args) := by
  cases f with
  | list => exact .pure _
  | map =>
      match args with
      | [g, xs] =>
          refine .bind (.ofOutcome _) fun g => .bind (.ofOutcome _) fun items => ?_
          exact .bind (mapItems_coincide (fun x => calls g [x] (by simp) (by simp)) items) fun _ => .pure _
      | [] | [_] | _ :: _ :: _ :: _ => exact .ofOutcome _
  | filter =>
      match args with
      | [g, xs] =>
          refine .bind (.ofOutcome _) fun g => .bind (.ofOutcome _) fun items => ?_
          exact .bind (filterItems_coincide (fun x => calls g [x] (by simp) (by simp)) items) fun _ => .pure _
      | [] | [_] | _ :: _ :: _ :: _ => exact .ofOutcome _
  | reduce =>
      match args with
      | [g, start, xs] =>
          refine .bind (.ofOutcome _) fun g => .bind (.ofOutcome _) fun items => ?_
          exact reduceItems_coincide (fun result x => calls g [result, x] (by simp) (by simp)) items start
      | [] | [_] | [_, _] | _ :: _ :: _ :: _ :: _ => exact .ofOutcome _
  | queue =>
      match args with
      | [] => exact .updateGet fun s t alike => ⟨by rw [bisim.queues alike], bisim.addQueue alike⟩
      | _ :: _ => exact .ofOutcome _
  | enqueue =>
      match args with
      | [q, value] =>
          refine .bind (.ofOutcome _) fun id => ?_
          exact .bind (.update fun s t alike => bisim.enqueue id value alike) fun _ => .pure _
      | [] | [_] | _ :: _ :: _ :: _ => exact .ofOutcome _
  | _ => exact .ofOutcome _

/-! ## Forms -/

namespace Eval

section

variable (bisim : Store.Bisimulation related)

include bisim

theorem child_coincide (scope : Nat) (bindings : List (String × Value)) :
    Coincide related escape (child scope bindings) (child scope bindings) :=
  .updateGet fun _ _ alike => ⟨bisim.frames alike, bisim.child scope bindings alike⟩

theorem define_coincide (scope : Nat) (name : String) (value : Value) :
    Coincide related escape (modify (·.define scope name value)) (modify (·.define scope name value)) :=
  .update fun _ _ alike => bisim.define scope name value alike

theorem function_coincide (scope : Nat) (name : Option String) (params body : List Form) :
    Coincide related escape (function scope name params body) (function scope name params body) := by
  apply Coincide.bind (.ofOutcome _)
  intro given
  exact .updateGet fun _ _ alike => ⟨by rw [bisim.closures alike], bisim.countClosure alike⟩

theorem lambda_coincide (scope : Nat) (name : Option String) (args : List Form) :
    Coincide related escape (lambda scope name args) (lambda scope name args) := by
  apply Coincide.bind (.ofOutcome _)
  intro parts
  exact function_coincide bisim scope name parts.1 parts.2

theorem atom_coincide (scope : Nat) (a : Atom) : Coincide related escape (atom scope a) (atom scope a) := by
  cases a with
  | symbol name =>
      intro s t alike
      have store (s : Store) : (get : Eval Store).run.run s = (.ok s, s) := rfl
      rw [atom, run_bind, run_bind, store, store]
      dsimp only
      rw [bisim.lookup scope name alike]
      cases t.lookup? scope name with
      | none => exact Coincide.throw _ s t alike
      | some value => exact Coincide.pure value s t alike
  | _ => exact .pure _

theorem defineFunction_coincide (scope : Nat) (signature body : List Form) :
    Coincide related escape (defineFunction scope signature body) (defineFunction scope signature body) := by
  unfold defineFunction
  split
  · next name params =>
      apply Coincide.bind (function_coincide bisim scope (some name) params body)
      intro f
      exact .bind (define_coincide bisim scope name f) fun _ => .pure _
  · exact .throw _

end

/-- Evaluating the form by two ways to call coincides in every frame. -/
def Same (related : Store → Store → Prop) (escape : Value → Prop) (call call' : Caller) (x : Form) : Prop :=
  ∀ scope, Coincide related escape (form call scope x) (form call' scope x)

section

variable {call call' : Caller} {items : List Form} (each : ∀ x ∈ items, Same related escape call call' x)
  (scope : Nat)

include each

theorem list_coincide : Coincide related escape (list call scope items) (list call' scope items) := by
  induction items with
  | nil => exact .pure []
  | cons item rest ih =>
      apply Coincide.bind (each item (by simp) scope)
      intro value
      exact .bind (ih fun x member => each x (by simp [member])) fun values => .pure (value :: values)

theorem body_coincide (last : Value) :
    Coincide related escape (body call scope last items) (body call' scope last items) := by
  induction items generalizing last with
  | nil => exact .pure last
  | cons item rest ih =>
      apply Coincide.bind (each item (by simp) scope)
      intro value
      exact ih (fun x member => each x (by simp [member])) value

theorem conjunction_coincide (last : Value) :
    Coincide related escape (conjunction call scope last items) (conjunction call' scope last items) := by
  induction items generalizing last with
  | nil => exact .pure last
  | cons item rest ih =>
      apply Coincide.bind (each item (by simp) scope)
      intro value
      split
      · exact ih (fun x member => each x (by simp [member])) value
      · exact .pure value

theorem disjunction_coincide (last : Value) :
    Coincide related escape (disjunction call scope last items) (disjunction call' scope last items) := by
  induction items generalizing last with
  | nil => exact .pure last
  | cons item rest ih =>
      apply Coincide.bind (each item (by simp) scope)
      intro value
      split
      · exact .pure value
      · exact ih (fun x member => each x (by simp [member])) value

end

theorem entries_coincide {call call' : Caller} (scope : Nat) :
    (items : List Form) → (∀ x ∈ items, Same related escape call call' x) → (written : List (Key × Value)) →
      Coincide related escape (entries call scope written items) (entries call' scope written items)
  | [], _, written => .pure written
  | [_], _, written => .pure written
  | key :: value :: rest, each, written => by
      apply Coincide.bind (each key (by simp) scope)
      intro k
      split
      · next name _ =>
          apply Coincide.bind (each value (by simp) scope)
          intro v
          exact entries_coincide scope rest (fun x member => each x (by simp [member])) _
      · exact .throw _

section

variable (bisim : Store.Bisimulation related) {call call' : Caller}

include bisim

theorem named_coincide (scope : Nat) (name : String) {x : Form} (same : Same related escape call call' x) :
    Coincide related escape (named scope name x (form call scope x)) (named scope name x (form call' scope x)) := by
  unfold named
  split
  · exact lambda_coincide bisim scope (some name) _
  · exact same scope

theorem bindings_coincide (scope : Nat) {items : List Form}
    (each : ∀ name value, .group .round [.atom (.symbol name), value] ∈ items → Same related escape call call' value) :
    Coincide related escape (bindings call scope items) (bindings call' scope items) := by
  induction items with
  | nil => exact .pure ()
  | cons pair rest ih =>
      rw [bindings.eq_def, bindings.eq_def call']
      dsimp only
      split
      · next name value =>
          apply Coincide.bind (named_coincide bisim scope name (each name value (by simp)))
          intro v
          apply Coincide.bind (define_coincide bisim scope name v)
          intro _
          exact ih fun name value member => each name value (by simp [member])
      · exact .throw _
      · exact .throw _

/-- The forms in brackets coincide when their items do, and the values bound by `let` among them. -/
theorem special_coincide (scope : Nat) {head : Form} {args : List Form}
    (each : ∀ x ∈ args, Same related escape call call' x)
    (inside : ∀ pairs, .group .round pairs ∈ args → ∀ name value, .group .round [.atom (.symbol name), value] ∈ pairs →
      Same related escape call call' value)
    {kind : Special} (special : head.symbol?.bind Special.ofName? = some kind) :
    Coincide related escape (form call scope (.group .round (head :: args)))
      (form call' scope (.group .round (head :: args))) := by
  rw [form.eq_def, form.eq_def call']
  simp only [special]
  cases kind with
  | quote =>
      dsimp only
      split
      · exact .pure _
      · exact .throw _
  | seq => exact body_coincide each scope .nil
  | lambda => exact lambda_coincide bisim scope none args
  | conj => exact conjunction_coincide each scope _
  | disj => exact disjunction_coincide each scope _
  | cond =>
      dsimp only
      split
      · next condition yes =>
          apply Coincide.bind (each condition (by simp) scope)
          intro v
          split
          · exact each yes (by simp) scope
          · exact .pure _
      · next condition yes no =>
          apply Coincide.bind (each condition (by simp) scope)
          intro v
          split
          · exact each yes (by simp) scope
          · exact each no (by simp) scope
      · exact .throw _
  | define =>
      dsimp only
      split
      · exact .throw _
      · exact defineFunction_coincide bisim scope _ _
      · next name rest =>
          split
          · exact .bind (define_coincide bisim scope name .nil) fun _ => .pure _
          · next value =>
              apply Coincide.bind (named_coincide bisim scope name (each value (by simp)))
              intro v
              exact .bind (define_coincide bisim scope name v) fun _ => .pure _
          · exact .throw _
      · exact .throw _
  | assign =>
      dsimp only
      split
      · next target value =>
          split
          · next name =>
              apply Coincide.bind (each value (by simp) scope)
              intro v
              exact .bind (.update fun s t alike => bisim.assign scope name v alike) fun _ => .pure v
          · exact .throw _
      · exact .throw _
  | binding =>
      dsimp only
      split
      · exact .throw _
      · next pairs rest =>
          apply Coincide.bind (child_coincide bisim scope [])
          intro inner
          apply Coincide.bind (bindings_coincide bisim inner (inside pairs (by simp)))
          intro _
          exact body_coincide (fun x member => each x (by simp [member])) inner .nil
      · exact .throw _
  | publish =>
      dsimp only
      split
      · next name value =>
          apply Coincide.bind (each name (by simp) scope)
          intro v
          split
          · next text =>
              apply Coincide.bind (each value (by simp) scope)
              intro w
              exact .bind (.update fun s t alike => bisim.publish text w alike) fun _ => .pure w
          · exact .throw _
      · exact .throw _

/-- Evaluation coincides when the calls do. -/
theorem form_coincide (calls : ∀ f args, Coincide related escape (call f args) (call' f args)) (x : Form) :
    Same related escape call call' x := by
  intro scope
  have smaller (y : Form) (less : sizeOf y < sizeOf x) : Same related escape call call' y := form_coincide calls y
  match x with
  | .atom a => exact atom_coincide bisim scope a
  | .quote inner => exact .pure _
  | .group .square items =>
      rw [form, form]
      exact .bind (list_coincide (fun y member => smaller y (Form.smaller_item member)) scope) fun _ => .pure _
  | .group .curly items =>
      rw [form, form]
      split
      · exact .bind (entries_coincide scope items (fun y member => smaller y (Form.smaller_item member)) [])
          fun _ => .pure _
      · exact .throw _
  | .group .round [] => exact .pure _
  | .group .round (head :: args) =>
      have each (y : Form) (member : y ∈ args) : Same related escape call call' y :=
        smaller y (Form.smaller_item (List.mem_cons_of_mem head member))
      cases special : head.symbol?.bind Special.ofName? with
      | none =>
          rw [form.eq_def, form.eq_def call']
          simp only [special]
          apply Coincide.bind (smaller head (Form.smaller_item List.mem_cons_self) scope)
          intro f
          exact .bind (list_coincide each scope) fun values => calls f values
      | some kind =>
          apply special_coincide bisim scope each _ special
          intro pairs isPairs name value isPair
          have inPair : value ∈ [.atom (.symbol name), value] := by simp
          apply smaller
          exact Nat.lt_trans (Form.smaller_item inPair)
            (Nat.lt_trans (Form.smaller_item isPair) (Form.smaller_item (List.mem_cons_of_mem head isPairs)))
termination_by sizeOf x

end

/-! ## Calls -/

theorem nested_coincide {α : Type} {inner : Store → Store → Prop} {x y : Eval α}
    (descend : ∀ s t, related s t → inner s.descend t.descend)
    (ascend : ∀ s t, inner s t → related s.ascend t.ascend)
    (coincide : Coincide inner escape x y) : Coincide related escape (nested x) (nested y) := by
  intro s t alike
  rcases coincide _ _ (descend s t alike) with escaped | ⟨same, alike'⟩
  · exact .inl escaped
  · exact .inr ⟨same, ascend _ _ alike'⟩

theorem enter_coincide {inner : Store → Store → Prop} (bisim : Store.Bisimulation related)
    (bisim' : Store.Bisimulation inner) (descend : ∀ s t, related s t → inner s.descend t.descend)
    (ascend : ∀ s t, inner s t → related s.ascend t.ascend) {call call' : Caller}
    (calls : ∀ f args, Coincide inner escape (call f args) (call' f args)) (c : Closure) (args : List Value) :
    Coincide related escape (c.enter call args) (c.enter call' args) := by
  unfold Closure.enter
  split
  · apply Coincide.bind (child_coincide bisim c.scope (c.bind args))
    intro scope
    apply nested_coincide descend ascend
    exact body_coincide (fun x _ => form_coincide bisim' calls x) scope .nil
  · exact .throw _

section

variable {enter enter' : Closure → List Value → Eval Value}
  (enters : ∀ c args, Coincide related escape (enter c args) (enter' c args))

include enters

theorem dispatch_coincide {native native' : Native → List Value → Eval Value} (f : Value) (args : List Value)
    (natives : ∀ g, Coincide related escape (native g args) (native' g args)) :
    Coincide related escape (dispatch enter native f args) (dispatch enter' native' f args) := by
  cases f with
  | closure c => exact enters c args
  | native g => exact natives g
  | _ => exact .throw _

/-- Any width that is enough for the arguments does the same. -/
theorem applyNative_coincide (bisim : Store.Bisimulation related) {width width' : Nat} (f : Native) (args : List Value)
    (enough : args.length ≤ width) (enough' : args.length ≤ width') :
    Coincide related escape (applyNative enter width f args) (applyNative enter' width' f args) := by
  induction width generalizing width' f args with
  | zero =>
      cases width' <;> exact f.run_coincide bisim args fun g given fewer _ => by omega
  | succ width ih =>
      cases width' with
      | zero => exact f.run_coincide bisim args fun g given fewer _ => by omega
      | succ width' =>
          apply f.run_coincide bisim args
          intro g given fewer _
          exact dispatch_coincide enters g given fun h => ih h given (by omega) (by omega)

theorem applyWith_coincide (bisim : Store.Bisimulation related) (f : Value) (args : List Value) :
    Coincide related escape (applyWith enter f args) (applyWith enter' f args) :=
  dispatch_coincide enters f args fun g =>
    applyNative_coincide enters bisim g args (Nat.le_refl _) (Nat.le_refl _)

end

/-- The bound on calls among native functions is never met: they call by the way they were called. -/
theorem applyWith_native (enter : Closure → List Value → Eval Value) (f : Native) (args : List Value) :
    applyWith enter (.native f) args = f.run (applyWith enter) args := by
  apply Coincide.eq
  have refl {α : Type} (x : Eval α) : Coincide Eq (fun _ => False) x x := fun s t same => .inr (by simp [same])
  change Coincide Eq _ (applyNative enter args.length f args) _
  cases count : args.length with
  | zero =>
      apply f.run_coincide .refl args
      intro g given fewer
      omega
  | succ width =>
      apply f.run_coincide .refl args
      intro g given fewer _
      apply dispatch_coincide (fun c args => refl (enter c args)) g given
      intro h
      exact applyNative_coincide (fun c args => refl (enter c args)) .refl h given (by omega) (Nat.le_refl _)

theorem applyAt_native (room : Nat) (f : Native) (args : List Value) :
    applyAt room (.native f) args = f.run (applyAt room) args := by
  cases room <;> exact applyWith_native _ f args

end Eval

end Exemplar
