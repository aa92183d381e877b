import Exemplar.Eval
import Exemplar.Proofs.InnerForms

/-!
# Functions known by their numbers

In a run no two functions have one number. What a run has made is a list in which every function stands at its number;
the list only grows, and all values that the store holds or that evaluation comes to hold functions of the list only.
-/

namespace Exemplar

namespace Value

mutual

/-- The functions of the program inside a value. -/
def functions : Value → List Closure
  | list items => itemFunctions items
  | map entries => entryFunctions entries
  | closure c => [c]
  | nil | bool _ | number _ | string _ | keyword _ | symbol _ | native _ | error _ _ | queue _ => []

def itemFunctions : List Value → List Closure
  | [] => []
  | item :: rest => functions item ++ itemFunctions rest

def entryFunctions : List (Key × Value) → List Closure
  | [] => []
  | (_, value) :: rest => functions value ++ entryFunctions rest

end

mutual

theorem recast_eq_iff (r : Recast) : (v : Value) → (v.recast r = v ↔ ∀ c ∈ v.functions, r.closure c = c)
  | list items => by rw [recast, list.injEq, functions, recastItems_eq_iff r items]
  | map entries => by rw [recast, map.injEq, functions, recastEntries_eq_iff r entries]
  | closure c => by rw [recast, closure.injEq, functions, List.forall_mem_singleton]
  | nil | bool _ | number _ | string _ | keyword _ | symbol _ | native _ | error _ _ | queue _ => by
      simp [recast, functions]

theorem recastItems_eq_iff (r : Recast) :
    (items : List Value) → (recastItems r items = items ↔ ∀ c ∈ itemFunctions items, r.closure c = c)
  | [] => by simp [recastItems, itemFunctions]
  | item :: rest => by
      rw [recastItems, List.cons.injEq, itemFunctions, List.forall_mem_append, recast_eq_iff r item,
        recastItems_eq_iff r rest]

theorem recastEntries_eq_iff (r : Recast) :
    (entries : List (Key × Value)) → (recastEntries r entries = entries ↔ ∀ c ∈ entryFunctions entries, r.closure c = c)
  | [] => by simp [recastEntries, entryFunctions]
  | (key, value) :: rest => by
      rw [recastEntries, List.cons.injEq, entryFunctions, List.forall_mem_append, ← recast_eq_iff r value,
        ← recastEntries_eq_iff r rest, Prod.mk.injEq]
      simp

end

/-- All functions in the value are in the list, at their numbers. -/
def From (made : List Closure) (v : Value) : Prop := ∀ c ∈ v.functions, made[c.id]? = some c

end Value

open Classical in
/-- Changes the functions that are not in the list: values that this keeps are from the list. -/
noncomputable def Recast.unknown (made : List Closure) : Recast where
  closure c := if made[c.id]? = some c then c else { c with scope := c.scope + 1 }
  id_eq c := by split <;> rfl
  name_eq c := by split <;> rfl

theorem Recast.unknown_closure (made : List Closure) (c : Closure) :
    (unknown made).closure c = c ↔ made[c.id]? = some c := by
  by_cases known : made[c.id]? = some c
  · simp [unknown, known]
  · have changed : (unknown made).closure c = { c with scope := c.scope + 1 } := if_neg known
    rw [changed]
    constructor
    · intro same
      have scopes := congrArg Closure.scope same
      simp at scopes
    · exact fun found => absurd found known

namespace Value

variable {made later : List Closure} {v : Value}

theorem from_iff : v.From made ↔ v.recast (.unknown made) = v := by
  rw [recast_eq_iff]
  simp only [Recast.unknown_closure]
  rfl

/-- Values that hold no functions are from any list. -/
theorem From.plain (fixed : ∀ r, v.recast r = v) : v.From made := from_iff.mpr (fixed _)

/-- Moving a value keeps it only when it holds no functions. -/
theorem From.of_moved (moved : v.Moved v) : v.From made := by
  have kept := (recast_eq_iff .inner v).mp moved.inner.symm
  intro c member
  have scopes := congrArg Closure.scope (kept c member)
  exact absurd scopes (Nat.succ_ne_self c.scope)

theorem From.mono (known : v.From made) (grows : made <+: later) : v.From later := by
  intro c member
  obtain ⟨more, rfl⟩ := grows
  have found := known c member
  rw [List.getElem?_append_left (List.getElem?_eq_some_iff.mp found).1, found]

abbrev AllFrom (made : List Closure) (items : List Value) : Prop := (list items).From made

abbrev EntriesFrom (made : List Closure) (entries : List (Key × Value)) : Prop := (map entries).From made

theorem From.insert (known : v.From made) (key : Key) {entries : List (Key × Value)}
    (others : EntriesFrom made entries) : EntriesFrom made (Keyed.insert key v entries) := by
  have inserted := Keyed.insert_map (recast (.unknown made)) key v entries
  rw [EntriesFrom, from_iff, recast, map.injEq, recastEntries_eq] at others ⊢
  rw [← inserted, from_iff.mp known, others]

theorem allFrom_nil : AllFrom made [] := .plain fun _ => rfl

theorem allFrom_cons {items : List Value} : AllFrom made (v :: items) ↔ v.From made ∧ AllFrom made items := by
  simp only [From, functions, itemFunctions, List.forall_mem_append]

theorem allFrom_iff {items : List Value} : AllFrom made items ↔ ∀ v ∈ items, v.From made := by
  induction items with
  | nil => simp [allFrom_nil]
  | cons v rest ih => rw [allFrom_cons, ih, List.forall_mem_cons]

theorem allFrom_iff_map {items : List Value} : AllFrom made items ↔ items.map (recast (.unknown made)) = items := by
  rw [AllFrom, from_iff, recast, list.injEq, recastItems_eq]

end Value

/-! ## Stores and computations -/

/-- The list has the functions made so far, and all values in the store are from it. -/
structure Store.From (made : List Closure) (s : Store) : Prop where
  closures : s.closures = made.length
  binding : ∀ f name v, s.binding? f name = some v → v.From made
  queue : ∀ q, ∀ v ∈ s.queue q, v.From made
  published : ∀ name v, Keyed.find? name s.exports = some v → v.From made

namespace Store.From

variable {made : List Closure} {s : Store}

theorem lookup (known : s.From made) {f : Nat} {name : String} {v : Value} (bound : s.lookup? f name = some v) :
    v.From made := by
  obtain ⟨g, _, found⟩ := List.exists_of_findSome?_eq_some bound
  exact known.binding g name v found

theorem define (known : s.From made) (f : Nat) (name : String) {v : Value} (value : v.From made) :
    (s.define f name v).From made where
  closures := known.closures
  binding g other w bound := by
    rw [binding?_define] at bound
    split at bound
    · cases bound
      exact value
    · exact known.binding g other w bound
  queue := known.queue
  published := known.published

theorem child (known : s.From made) (f : Nat) {bindings : List (String × Value)}
    (values : ∀ name v, Keyed.find? name bindings = some v → v.From made) : (s.child f bindings).From made where
  closures := known.closures
  binding g name v bound := by
    rw [binding?_child] at bound
    split at bound
    · exact values name v bound
    · exact known.binding g name v bound
  queue := known.queue
  published := known.published

theorem addQueue (known : s.From made) : s.addQueue.From made :=
  { known with queue := fun q => by rw [queue_addQueue]; exact known.queue q }

theorem enqueue (known : s.From made) (q : Nat) {v : Value} (value : v.From made) : (s.enqueue q v).From made :=
  { known with
    queue := fun p w member => by
      rw [queue_enqueue] at member
      split at member
      · rcases List.mem_append.mp member with old | new
        · exact known.queue p w old
        · rw [List.mem_singleton.mp new]
          exact value
      · exact known.queue p w member }

theorem drain (known : s.From made) (q : Nat) : (s.drain q).From made :=
  { known with
    queue := fun p w member => by
      rw [queue_drain] at member
      split at member
      · cases member
      · exact known.queue p w member }

theorem publish (known : s.From made) (name : String) {v : Value} (value : v.From made) :
    (s.publish name v).From made :=
  { known with
    published := fun other w found => by
      rw [Store.publish, Keyed.find?_insert] at found
      split at found
      · cases found
        exact value
      · exact known.published other w found }

theorem descend (known : s.From made) : s.descend.From made := { known with }

theorem ascend (known : s.From made) : s.ascend.From made := { known with }

/-- A new function gets the next number. -/
theorem countClosure (known : s.From made) (c : Closure) : s.countClosure.From (made ++ [c]) where
  closures := by rw [Store.countClosure, known.closures, List.length_append, List.length_singleton]
  binding f name v bound := (known.binding f name v bound).mono (List.prefix_append _ _)
  queue q v member := (known.queue q v member).mono (List.prefix_append _ _)
  published name v found := (known.published name v found).mono (List.prefix_append _ _)

end Store.From

/-- An outcome is a good result or a raised value from the list. -/
def OutcomeFrom {α : Type} (made : List Closure) (good : α → Prop) : Except Value α → Prop
  | .ok a => good a
  | .error raised => raised.From made

theorem OutcomeFrom.mono {made later : List Closure} {outcome : Except Value Value}
    (ends : OutcomeFrom made (Value.From made) outcome) (grows : made <+: later) :
    OutcomeFrom later (Value.From later) outcome := by
  cases outcome with
  | ok v => exact Value.From.mono ends grows
  | error raised => exact Value.From.mono ends grows

/-- From a store of the list, the computation makes functions that go behind the list, and ends well with it. -/
def Yields {α : Type} (made : List Closure) (good : List Closure → α → Prop) (x : Eval α) : Prop :=
  ∀ s, Store.From made s → ∃ later, made <+: later ∧ (x.run.run s).2.From later ∧
    OutcomeFrom later (good later) (x.run.run s).1

namespace Yields

variable {α β : Type} {made : List Closure} {good : List Closure → α → Prop} {good' : List Closure → β → Prop}

theorem pure {a : α} (result : good made a) : Yields made good (Pure.pure a) :=
  fun _ known => ⟨made, List.prefix_refl _, known, result⟩

theorem throw {raised : Value} (known : raised.From made) : Yields made good (MonadExcept.throw raised) :=
  fun _ store => ⟨made, List.prefix_refl _, store, known⟩

theorem bind {x : Eval α} {f : α → Eval β} (first : Yields made good x)
    (next : ∀ later a, made <+: later → good later a → Yields later good' (f a)) : Yields made good' (x >>= f) := by
  intro s known
  obtain ⟨middle, grows, known', ends⟩ := first s known
  rw [Eval.run_bind]
  generalize x.run.run s = ran at known' ends
  obtain ⟨outcome, s'⟩ := ran
  cases outcome with
  | error raised => exact ⟨middle, grows, known', ends⟩
  | ok a =>
      obtain ⟨last, grows', known'', ends'⟩ := next middle a grows ends s' known'
      exact ⟨last, grows.trans grows', known'', ends'⟩

theorem ofOutcome {x : Except Value α} (ends : OutcomeFrom made (good made) x) :
    Yields made good (Eval.ofOutcome x) := by
  cases x with
  | ok a => exact pure ends
  | error raised => exact throw ends

theorem update {f : Store → Store} (keeps : ∀ s, Store.From made s → (f s).From made) :
    Yields made (fun _ _ => True) (modify f) :=
  fun s known => ⟨made, List.prefix_refl _, keeps s known, trivial⟩

theorem read : Yields made Store.From get :=
  fun _ known => ⟨made, List.prefix_refl _, known, known⟩

/-- What goes along with recasting takes what is from the list to an outcome that is. -/
theorem of_along {compute : β → Except Value α} {act : Recast → α → α} {act' : Recast → β → β}
    (along : ∀ r b, compute (act' r b) = r.carry (act r) (compute b)) {b : β} (fixed : act' (.unknown made) b = b)
    (isGood : ∀ a, act (.unknown made) a = a → good made a) : Yields made good (Eval.ofOutcome (compute b)) := by
  have same := along (.unknown made) b
  rw [fixed] at same
  refine ofOutcome ?_
  cases result : compute b with
  | ok a =>
      rw [result] at same
      exact isGood a (Except.ok.inj same).symm
  | error raised =>
      rw [result] at same
      exact Value.from_iff.mpr (Except.error.inj same).symm

theorem of_natural {compute : List Value → Except Value Value} (natural : Natural compute) {args : List Value}
    (given : Value.AllFrom made args) : Yields made Value.From (Eval.ofOutcome (compute args)) :=
  of_along natural (Value.allFrom_iff_map.mp given) fun _ => Value.from_iff.mpr

theorem callable {v : Value} (known : v.From made) (f : Native) :
    Yields made Value.From (Eval.ofOutcome (f.callable v)) :=
  of_along (f.callable_recast ·) (Value.from_iff.mp known) fun _ => Value.from_iff.mpr

theorem items {v : Value} (known : v.From made) (f : Native) :
    Yields made Value.AllFrom (Eval.ofOutcome (f.items v)) :=
  of_along (f.items_recast ·) (Value.from_iff.mp known) fun _ => Value.allFrom_iff_map.mpr

theorem queueId {v : Value} (known : v.From made) (f : Native) :
    Yields made (fun _ _ => True) (Eval.ofOutcome (f.queueId v)) :=
  of_along (f.queueId_recast ·) (Value.from_iff.mp known) fun _ _ => trivial

theorem wrongCount (f : Native) (expected : String) (args : List Value) :
    Yields made Value.From (Eval.ofOutcome (f.wrongCount expected args)) :=
  throw (.plain fun _ => rfl)

end Yields

/-- A way to call that ends well on functions and arguments from a list. -/
def Caller.Yields (call : Caller) : Prop :=
  ∀ made f args, Value.From made f → Value.AllFrom made args → Exemplar.Yields made Value.From (call f args)

/-! ## Native functions -/

section

variable {call : Caller} (calls : call.Yields) {made : List Closure} {f : Value}

include calls

theorem mapItems_yields {items : List Value} (function : f.From made) (given : Value.AllFrom made items) :
    Yields made Value.AllFrom (Eval.mapItems call f items) := by
  induction items generalizing made with
  | nil => exact .pure Value.allFrom_nil
  | cons x rest ih =>
      obtain ⟨first, others⟩ := Value.allFrom_cons.mp given
      have argument : Value.AllFrom made [x] := Value.allFrom_cons.mpr ⟨first, Value.allFrom_nil⟩
      refine .bind (calls made f [x] function argument) fun later y grows result => ?_
      refine .bind (ih (function.mono grows) (others.mono grows)) fun last ys grows' results => .pure ?_
      exact Value.allFrom_cons.mpr ⟨result.mono grows', results⟩

theorem filterItems_yields {items : List Value} (function : f.From made) (given : Value.AllFrom made items) :
    Yields made Value.AllFrom (Eval.filterItems call f items) := by
  induction items generalizing made with
  | nil => exact .pure Value.allFrom_nil
  | cons x rest ih =>
      obtain ⟨first, others⟩ := Value.allFrom_cons.mp given
      have argument : Value.AllFrom made [x] := Value.allFrom_cons.mpr ⟨first, Value.allFrom_nil⟩
      refine .bind (calls made f [x] function argument) fun later keep grows _ => ?_
      refine .bind (ih (function.mono grows) (others.mono grows)) fun last kept grows' results => .pure ?_
      split
      · exact Value.allFrom_cons.mpr ⟨first.mono (grows.trans grows'), results⟩
      · exact results

theorem reduceItems_yields {items : List Value} {start : Value} (function : f.From made) (begins : start.From made)
    (given : Value.AllFrom made items) : Yields made Value.From (Eval.reduceItems call f start items) := by
  induction items generalizing made start with
  | nil => exact .pure begins
  | cons x rest ih =>
      obtain ⟨first, others⟩ := Value.allFrom_cons.mp given
      have arguments : Value.AllFrom made [start, x] :=
        Value.allFrom_cons.mpr ⟨begins, Value.allFrom_cons.mpr ⟨first, Value.allFrom_nil⟩⟩
      refine .bind (calls made f _ function arguments) fun later result grows known => ?_
      exact ih (function.mono grows) known (others.mono grows)

end

theorem Native.run_yields {call : Caller} (calls : call.Yields) (f : Native) {made : List Closure} {args : List Value}
    (given : Value.AllFrom made args) : Yields made Value.From (f.run call args) := by
  rcases f.run_natural with ⟨compute, natural, computed⟩ | rfl | rfl | rfl | rfl | rfl
  · rw [computed]
    exact .of_natural natural given
  · -- map
    match args with
    | [g, xs] =>
        simp only [Value.allFrom_cons] at given
        refine .bind (.callable given.1 .map) fun later h grows called => ?_
        refine .bind (.items (given.2.1.mono grows) .map) fun last items grows' found => ?_
        exact .bind (mapItems_yields calls (called.mono grows') found) fun _ _ _ results => .pure results
    | [] | [_] | _ :: _ :: _ :: _ => exact .wrongCount .map "2" _
  · -- filter
    match args with
    | [g, xs] =>
        simp only [Value.allFrom_cons] at given
        refine .bind (.callable given.1 .filter) fun later h grows called => ?_
        refine .bind (.items (given.2.1.mono grows) .filter) fun last items grows' found => ?_
        exact .bind (filterItems_yields calls (called.mono grows') found) fun _ _ _ results => .pure results
    | [] | [_] | _ :: _ :: _ :: _ => exact .wrongCount .filter "2" _
  · -- reduce
    match args with
    | [g, start, xs] =>
        simp only [Value.allFrom_cons] at given
        refine .bind (.callable given.1 .reduce) fun later h grows called => ?_
        refine .bind (.items (given.2.2.1.mono grows) .reduce) fun last items grows' found => ?_
        exact reduceItems_yields calls (called.mono grows') (given.2.1.mono (grows.trans grows')) found
    | [] | [_] | [_, _] | _ :: _ :: _ :: _ :: _ => exact .wrongCount .reduce "3" _
  · -- queue
    match args with
    | [] => exact fun s known => ⟨made, List.prefix_refl _, known.addQueue, .plain fun _ => rfl⟩
    | _ :: _ => exact .wrongCount .queue "0" _
  · -- enqueue
    match args with
    | [q, value] =>
        simp only [Value.allFrom_cons] at given
        refine .bind (.queueId given.1 .enqueue) fun later id grows _ => ?_
        have known := given.2.1.mono grows
        exact .bind (.update fun s store => store.enqueue id known) fun _ _ _ _ => .pure (.plain fun _ => rfl)
    | [] | [_] | _ :: _ :: _ :: _ => exact .wrongCount .enqueue "2" _

/-! ## Forms -/

namespace Eval

variable {made : List Closure}

theorem function_yields (scope : Nat) (name : Option String) (params body : List Form) :
    Yields made Value.From (function scope name params body) := by
  have readable : Yields made (fun _ _ => True) (ofOutcome (parameters params)) := by
    cases named : parameters params with
    | ok names => exact .pure trivial
    | error raised => exact .throw (.of_moved (parameters_plain params raised named))
  refine .bind readable fun later names grows _ => ?_
  intro s known
  let c : Closure := ⟨s.closures, name, names.1, names.2, body, scope⟩
  have last : (later ++ [c])[c.id]? = some c := by
    have next : c.id = later.length := known.closures
    rw [next, List.getElem?_concat_length]
  exact ⟨later ++ [c], List.prefix_append _ _, known.countClosure c, List.forall_mem_singleton.mpr last⟩

theorem lambda_yields (scope : Nat) (name : Option String) (args : List Form) :
    Yields made Value.From (lambda scope name args) := by
  have shaped : Yields made (fun _ _ => True) (ofOutcome (functionParts args)) := by
    unfold functionParts
    split
    · exact .pure trivial
    · exact .pure trivial
    · exact .throw (.plain fun _ => rfl)
  exact .bind shaped fun _ parts _ _ => function_yields scope name parts.1 parts.2

/-- A form ends well in every frame, whatever has been made. -/
def Good (call : Caller) (x : Form) : Prop := ∀ made scope, Yields made Value.From (form call scope x)

section

variable {call : Caller} {items : List Form} (each : ∀ x ∈ items, Good call x) (scope : Nat)

include each

theorem list_yields : Yields made Value.AllFrom (list call scope items) := by
  induction items generalizing made with
  | nil => exact .pure Value.allFrom_nil
  | cons item rest ih =>
      refine .bind (each item List.mem_cons_self made scope) fun later v grows value => ?_
      refine .bind (ih fun x member => each x (List.mem_cons_of_mem _ member)) fun last vs grows' values => .pure ?_
      exact Value.allFrom_cons.mpr ⟨value.mono grows', values⟩

theorem body_yields {last : Value} (known : last.From made) : Yields made Value.From (body call scope last items) := by
  induction items generalizing made last with
  | nil => exact .pure known
  | cons item rest ih =>
      refine .bind (each item List.mem_cons_self made scope) fun later v grows value => ?_
      exact ih (fun x member => each x (List.mem_cons_of_mem _ member)) value

theorem conjunction_yields {last : Value} (known : last.From made) :
    Yields made Value.From (conjunction call scope last items) := by
  induction items generalizing made last with
  | nil => exact .pure known
  | cons item rest ih =>
      refine .bind (each item List.mem_cons_self made scope) fun later v grows value => ?_
      split
      · exact ih (fun x member => each x (List.mem_cons_of_mem _ member)) value
      · exact .pure value

theorem disjunction_yields {last : Value} (known : last.From made) :
    Yields made Value.From (disjunction call scope last items) := by
  induction items generalizing made last with
  | nil => exact .pure known
  | cons item rest ih =>
      refine .bind (each item List.mem_cons_self made scope) fun later v grows value => ?_
      split
      · exact .pure value
      · exact ih (fun x member => each x (List.mem_cons_of_mem _ member)) value

end

theorem entries_yields {call : Caller} (scope : Nat) :
    (items : List Form) → (∀ x ∈ items, Good call x) →
      ∀ {made : List Closure} {written : List (Key × Value)}, Value.EntriesFrom made written →
        Yields made Value.EntriesFrom (entries call scope written items)
  | [], _, _, _, known => .pure known
  | [_], _, _, _, known => .pure known
  | key :: value :: rest, each, made, written, known => by
      refine .bind (each key (by simp) made scope) fun later k grows _ => ?_
      split
      · next name _ =>
          refine .bind (each value (by simp) later scope) fun last v grows' isValue => ?_
          refine entries_yields scope rest (fun x member => each x (by simp [member])) ?_
          exact isValue.insert name (known.mono (grows.trans grows'))
      · exact .throw (.plain fun _ => rfl)

theorem named_yields {call : Caller} (scope : Nat) (name : String) {x : Form} (good : Good call x) :
    Yields made Value.From (named scope name x (form call scope x)) := by
  unfold named
  split
  · exact lambda_yields scope (some name) _
  · exact good made scope

/-- Binding a value that is from the list, for what comes behind it. -/
theorem define_yields (scope : Nat) (name : String) {v : Value} (known : v.From made) :
    Yields made (fun _ _ => True) (modify (·.define scope name v)) :=
  .update fun _ store => store.define scope name known

theorem bindings_yields {call : Caller} (scope : Nat) {items : List Form}
    (each : ∀ name value, .group .round [.atom (.symbol name), value] ∈ items → Good call value) :
    Yields made (fun _ _ => True) (bindings call scope items) := by
  induction items generalizing made with
  | nil => exact .pure trivial
  | cons pair rest ih =>
      rw [bindings.eq_def]
      dsimp only
      split
      · next name value =>
          refine .bind (named_yields scope name (each name value (by simp))) fun later v _ known => ?_
          refine .bind (define_yields scope name known) fun _ _ _ _ => ?_
          exact ih fun name value member => each name value (by simp [member])
      · exact .throw (.plain fun _ => rfl)
      · exact .throw (.plain fun _ => rfl)

theorem atom_yields (scope : Nat) (a : Atom) : Yields made Value.From (atom scope a) := by
  cases a with
  | symbol name =>
      refine .bind .read fun later s _ known => ?_
      split
      · next bound => exact .pure (known.lookup bound)
      · exact .throw (.plain fun _ => rfl)
  | _ => exact .pure (.plain fun _ => rfl)

theorem defineFunction_yields (scope : Nat) (signature body : List Form) :
    Yields made Value.From (defineFunction scope signature body) := by
  unfold defineFunction
  split
  · next name params =>
      refine .bind (function_yields scope (some name) params body) fun later f _ known => ?_
      exact .bind (define_yields scope name known) fun _ _ _ _ => .pure (.plain fun _ => rfl)
  · exact .throw (.plain fun _ => rfl)

/-! ## Special forms -/

section

variable {call : Caller} {scope : Nat} {head : Form} {args : List Form} (each : ∀ x ∈ args, Good call x)

include each

theorem cond_yields (special : head.symbol?.bind Special.ofName? = some .cond) :
    Yields made Value.From (form call scope (.group .round (head :: args))) := by
  rw [form.eq_def]
  simp only [special]
  split
  · next condition yes =>
      refine .bind (each condition (by simp) made scope) fun later v _ _ => ?_
      split
      · exact each yes (by simp) later scope
      · exact .pure (.plain fun _ => rfl)
  · next condition yes no =>
      refine .bind (each condition (by simp) made scope) fun later v _ _ => ?_
      split
      · exact each yes (by simp) later scope
      · exact each no (by simp) later scope
  · exact .throw (.plain fun _ => rfl)

theorem definition_yields (special : head.symbol?.bind Special.ofName? = some .define) :
    Yields made Value.From (form call scope (.group .round (head :: args))) := by
  rw [form.eq_def]
  simp only [special]
  split
  · exact .throw (.plain fun _ => rfl)
  · next signature rest => exact defineFunction_yields scope signature rest
  · next name rest =>
      split
      · exact .bind (define_yields scope name (.plain fun _ => rfl)) fun _ _ _ _ => .pure (.plain fun _ => rfl)
      · next value =>
          refine .bind (named_yields scope name (each value (by simp))) fun later v _ known => ?_
          exact .bind (define_yields scope name known) fun _ _ _ _ => .pure (.plain fun _ => rfl)
      · exact .throw (.plain fun _ => rfl)
  · exact .throw (.plain fun _ => rfl)

theorem assign_yields (special : head.symbol?.bind Special.ofName? = some .assign) :
    Yields made Value.From (form call scope (.group .round (head :: args))) := by
  rw [form.eq_def]
  simp only [special]
  split
  · next target value =>
      split
      · next name =>
          refine .bind (each value (by simp) made scope) fun later v _ known => ?_
          refine .bind (.update fun s store => store.define (s.target scope name) name known) fun _ _ grows _ => ?_
          exact .pure (known.mono grows)
      · exact .throw (.plain fun _ => rfl)
  · exact .throw (.plain fun _ => rfl)

theorem publish_yields (special : head.symbol?.bind Special.ofName? = some .publish) :
    Yields made Value.From (form call scope (.group .round (head :: args))) := by
  rw [form.eq_def]
  simp only [special]
  split
  · next name value =>
      refine .bind (each name (by simp) made scope) fun later v _ _ => ?_
      split
      · next text _ =>
          refine .bind (each value (by simp) later scope) fun last w _ known => ?_
          exact .bind (.update fun s store => store.publish text known) fun _ _ grows _ => .pure (known.mono grows)
      · exact .throw (.plain fun _ => rfl)
  · exact .throw (.plain fun _ => rfl)

variable (inside : ∀ pairs, .group .round pairs ∈ args → ∀ name value,
  .group .round [.atom (.symbol name), value] ∈ pairs → Good call value)

include inside

theorem binding_yields (special : head.symbol?.bind Special.ofName? = some .binding) :
    Yields made Value.From (form call scope (.group .round (head :: args))) := by
  rw [form.eq_def]
  simp only [special]
  split
  · exact .throw (.plain fun _ => rfl)
  · next pairs rest =>
      have opened : Yields made (fun _ _ => True) (child scope []) := fun s known =>
        ⟨made, List.prefix_refl _, known.child scope (by simp [Keyed.find?]), trivial⟩
      refine .bind opened fun later inner _ _ => ?_
      refine .bind (bindings_yields inner (inside pairs (by simp))) fun last _ _ _ => ?_
      exact body_yields (fun x member => each x (by simp [member])) inner (.plain fun _ => rfl)
  · exact .throw (.plain fun _ => rfl)

/-- A special form ends well when the forms in it do. -/
theorem special_yields {kind : Special} (special : head.symbol?.bind Special.ofName? = some kind) :
    Yields made Value.From (form call scope (.group .round (head :: args))) := by
  cases kind with
  | cond => exact cond_yields each special
  | define => exact definition_yields each special
  | assign => exact assign_yields each special
  | publish => exact publish_yields each special
  | binding => exact binding_yields each inside special
  | quote =>
      rw [form.eq_def]
      simp only [special]
      split
      · next inner => exact .pure (.plain fun r => Value.quoted_recast r inner)
      · exact .throw (.plain fun _ => rfl)
  | seq =>
      rw [form.eq_def]
      simp only [special]
      exact body_yields each scope (.plain fun _ => rfl)
  | lambda =>
      rw [form.eq_def]
      simp only [special]
      exact lambda_yields scope none args
  | conj =>
      rw [form.eq_def]
      simp only [special]
      exact conjunction_yields each scope (.plain fun _ => rfl)
  | disj =>
      rw [form.eq_def]
      simp only [special]
      exact disjunction_yields each scope (.plain fun _ => rfl)

end

theorem form_yields {call : Caller} (calls : call.Yields) (x : Form) : Good call x := by
  intro made scope
  have smaller (y : Form) (less : sizeOf y < sizeOf x) : Good call y := form_yields calls y
  match x with
  | .atom a => exact atom_yields scope a
  | .quote inner => exact .pure (.plain fun r => Value.quoted_recast r inner)
  | .group .square items =>
      rw [form]
      exact .bind (list_yields (fun y member => smaller y (Form.smaller_item member)) scope) fun _ _ _ values =>
        .pure values
  | .group .curly items =>
      rw [form]
      have written : Value.EntriesFrom made [] := .plain fun _ => rfl
      split
      · exact .bind (entries_yields scope items (fun y member => smaller y (Form.smaller_item member)) written)
          fun _ _ _ known => .pure known
      · exact .throw (.plain fun _ => rfl)
  | .group .round [] => exact .pure (.plain fun _ => rfl)
  | .group .round (head :: args) =>
      have each (y : Form) (member : y ∈ args) : Good call y :=
        smaller y (Form.smaller_item (List.mem_cons_of_mem head member))
      cases special : head.symbol?.bind Special.ofName? with
      | none =>
          rw [form.eq_def]
          simp only [special]
          refine .bind (smaller head (Form.smaller_item List.mem_cons_self) made scope) fun later f _ function => ?_
          refine .bind (list_yields each scope) fun last values grows given => ?_
          exact calls last f values (function.mono grows) given
      | some kind =>
          refine special_yields each (fun pairs isPairs name value isPair => smaller value ?_) special
          have inPair : value ∈ [.atom (.symbol name), value] := by simp
          exact Nat.lt_trans (Form.smaller_item inPair)
            (Nat.lt_trans (Form.smaller_item isPair) (Form.smaller_item (List.mem_cons_of_mem head isPairs)))
termination_by sizeOf x

/-! ## Calls -/

theorem enter_yields {call : Caller} (calls : call.Yields) (c : Closure) {args : List Value}
    (given : Value.AllFrom made args) : Yields made Value.From (Closure.enter call c args) := by
  unfold Closure.enter
  split
  · have opened : Yields made (fun _ _ => True) (child c.scope (c.bind args)) := by
      intro s known
      refine ⟨made, List.prefix_refl _, known.child c.scope fun name v bound => ?_, trivial⟩
      have same := Keyed.find?_map (Value.recast (.unknown made)) name (c.bind args)
      rw [← bind_recast, Value.allFrom_iff_map.mp given, bound] at same
      exact Value.from_iff.mpr (Option.some.inj same).symm
    refine .bind opened fun later scope _ _ => ?_
    have ran : Yields later Value.From (body call scope .nil c.body) :=
      body_yields (fun x _ => form_yields calls x) scope (.plain fun _ => rfl)
    intro s known
    obtain ⟨last, grows, known', ends⟩ := ran s.descend known.descend
    exact ⟨last, grows, known'.ascend, ends⟩
  · exact .throw (.plain fun _ => rfl)

section

variable {enter : Closure → List Value → Eval Value}
  (enters : ∀ made c args, Value.AllFrom made args → Yields made Value.From (enter c args))

include enters

theorem dispatch_yields {native : Native → List Value → Eval Value}
    (natives : ∀ made f args, Value.AllFrom made args → Yields made Value.From (native f args)) :
    (dispatch enter native : Caller).Yields := by
  intro made f args function given
  cases f with
  | closure c => exact enters made c args given
  | native f => exact natives made f args given
  | _ => exact .throw (.plain fun _ => rfl)

theorem applyNative_yields (width : Nat) (f : Native) {args : List Value} (given : Value.AllFrom made args) :
    Yields made Value.From (applyNative enter width f args) := by
  induction width generalizing made f args with
  | zero => exact f.run_yields (fun _ _ _ _ _ => .throw (.plain fun _ => rfl)) given
  | succ width ih => exact f.run_yields (dispatch_yields enters fun _ g _ given => ih g given) given

theorem applyWith_yields : (applyWith enter : Caller).Yields := by
  intro made f args function given
  exact dispatch_yields enters (fun _ g _ given => applyNative_yields enters _ g given) made f args function given

end

theorem applyAt_yields (room : Nat) : (applyAt room : Caller).Yields := by
  induction room with
  | zero => exact applyWith_yields fun _ _ _ _ => .bind .read fun _ _ _ _ => .throw (.plain fun _ => rfl)
  | succ room ih => exact applyWith_yields fun _ c _ given => enter_yields ih c given

theorem apply_yields {f : Value} {args : List Value} (function : f.From made) (given : Value.AllFrom made args) :
    Yields made Value.From (apply f args) :=
  .bind .read fun later s grows _ => applyAt_yields s.room later f args (function.mono grows) (given.mono grows)

theorem program_yields (scope : Nat) (forms : List Form) : Yields made Value.From (program scope forms) :=
  .bind .read fun _ s _ _ => body_yields (fun x _ => form_yields (applyAt_yields s.room) x) scope (.plain fun _ => rfl)

end Eval

end Exemplar
