import Exemplar.Eval
import Exemplar.Proofs.InnerScope

/-!
# Runs one frame further in

A program computes the same in a frame inside the outermost one as it does in the outermost frame itself: from linked
stores evaluation comes to linked stores and to the same outcome, with functions moved.
-/

namespace Exemplar

/-- Outcomes of the same kind, with related results or moved raised values. -/
inductive Agree {α β : Type} (related : α → β → Prop) : Except Value α → Except Value β → Prop where
  | ok {a : α} {b : β} (results : related a b) : Agree related (.ok a) (.ok b)
  | error {v w : Value} (raised : v.Moved w) : Agree related (.error v) (.error w)

/-- Linked stores stay linked under the two computations, which end alike. -/
def Follows {α β : Type} (related : α → β → Prop) (x : Eval α) (y : Eval β) : Prop :=
  ∀ s t, Store.Linked s t →
    Store.Linked (x.run.run s).2 (y.run.run t).2 ∧ Agree related (x.run.run s).1 (y.run.run t).1

theorem Moved.agree {α : Type} {act : Recast → α → α} {x y : Except Value α}
    (moved : Moved (fun r => r.carry (act r)) x y) : Agree (Moved act) x y := by
  obtain ⟨inner, sparing⟩ := moved
  subst inner
  cases x with
  | ok a => exact .ok ⟨rfl, Except.ok.inj sparing⟩
  | error raised => exact .error ⟨rfl, Except.error.inj sparing⟩

namespace Follows

variable {α β γ δ : Type} {related : α → β → Prop} {related' : γ → δ → Prop}

theorem pure {a : α} {b : β} (results : related a b) : Follows related (Pure.pure a) (Pure.pure b) :=
  fun _ _ linked => ⟨linked, .ok results⟩

theorem throw {v w : Value} (raised : v.Moved w) : Follows related (MonadExcept.throw v) (MonadExcept.throw w) :=
  fun _ _ linked => ⟨linked, .error raised⟩

theorem bind {x : Eval α} {y : Eval β} {f : α → Eval γ} {g : β → Eval δ} (first : Follows related x y)
    (next : ∀ a b, related a b → Follows related' (f a) (g b)) : Follows related' (x >>= f) (y >>= g) := by
  intro s t linked
  obtain ⟨linked', agree⟩ := first s t linked
  rw [Eval.run_bind, Eval.run_bind]
  generalize x.run.run s = left at linked' agree
  generalize y.run.run t = right at linked' agree
  obtain ⟨outcome, s'⟩ := left
  obtain ⟨outcome', t'⟩ := right
  cases agree with
  | ok results => exact next _ _ results s' t' linked'
  | error raised => exact ⟨linked', .error raised⟩

theorem ofOutcome {x : Except Value α} {y : Except Value β} (agree : Agree related x y) :
    Follows related (Eval.ofOutcome x) (Eval.ofOutcome y) := by
  cases agree with
  | ok results => exact pure results
  | error raised => exact throw raised

theorem update {f g : Store → Store} (keeps : ∀ s t, Store.Linked s t → Store.Linked (f s) (g t)) :
    Follows Eq (modify f) (modify g) :=
  fun s t linked => ⟨keeps s t linked, .ok rfl⟩

theorem updateGet {f : Store → α × Store} {g : Store → β × Store}
    (keeps : ∀ s t, Store.Linked s t → Store.Linked (f s).2 (g t).2 ∧ related (f s).1 (g t).1) :
    Follows related (modifyGet f) (modifyGet g) :=
  fun s t linked => ⟨(keeps s t linked).1, .ok (keeps s t linked).2⟩

theorem read : Follows Store.Linked get get :=
  fun _ _ linked => ⟨linked, .ok linked⟩

theorem of_natural {compute : List Value → Except Value Value} (natural : Natural compute) {args args' : List Value}
    (moved : Value.AllMoved args args') :
    Follows Value.Moved (Eval.ofOutcome (compute args)) (Eval.ofOutcome (compute args')) :=
  ofOutcome (Moved.agree (moved.map natural))

end Follows

namespace Value.AllMoved

theorem cons_left {v : Value} {vs ws : List Value} (moved : AllMoved (v :: vs) ws) :
    ∃ w rest, ws = w :: rest ∧ v.Moved w ∧ AllMoved vs rest := by
  obtain ⟨inner, sparing⟩ := moved
  obtain ⟨first, rest⟩ := List.cons.inj sparing
  exact ⟨_, _, inner, ⟨rfl, first⟩, ⟨rfl, rest⟩⟩

theorem nil_left {ws : List Value} (moved : AllMoved [] ws) : ws = [] := moved.inner

theorem cons {v w : Value} {vs ws : List Value} (first : v.Moved w) (rest : AllMoved vs ws) :
    AllMoved (v :: vs) (w :: ws) :=
  Moved.map₂ (f := fun v vs => v :: vs) (fun _ _ _ => rfl) first rest

theorem nil : AllMoved [] [] := ⟨rfl, rfl⟩

theorem length {vs ws : List Value} (moved : AllMoved vs ws) : ws.length = vs.length := by
  rw [moved.inner, List.length_map]

theorem list {vs ws : List Value} (moved : AllMoved vs ws) : (Value.list vs).Moved (.list ws) :=
  moved.map fun r items => by simp [recast]

end Value.AllMoved

/-- Two ways to call that end alike on moved functions and arguments. -/
def Calls (call call' : Caller) : Prop :=
  ∀ f f' args args', Value.Moved f f' → Value.AllMoved args args' → Follows Value.Moved (call f args) (call' f' args')

section

variable {call call' : Caller} (calls : Calls call call') {f f' : Value} (moved : f.Moved f')

include calls moved

theorem mapItems_follows {items items' : List Value} (given : Value.AllMoved items items') :
    Follows Value.AllMoved (Eval.mapItems call f items) (Eval.mapItems call' f' items') := by
  induction items generalizing items' with
  | nil =>
      rw [given.nil_left]
      exact .pure .nil
  | cons x rest ih =>
      obtain ⟨y, others, rfl, first, later⟩ := given.cons_left
      refine .bind (calls _ _ _ _ moved (.cons first .nil)) fun a b result => ?_
      exact .bind (ih later) fun as bs results => .pure (.cons result results)

theorem filterItems_follows {items items' : List Value} (given : Value.AllMoved items items') :
    Follows Value.AllMoved (Eval.filterItems call f items) (Eval.filterItems call' f' items') := by
  induction items generalizing items' with
  | nil =>
      rw [given.nil_left]
      exact .pure .nil
  | cons x rest ih =>
      obtain ⟨y, others, rfl, first, later⟩ := given.cons_left
      refine .bind (calls _ _ _ _ moved (.cons first .nil)) fun keep keep' result => ?_
      refine .bind (ih later) fun kept kept' results => ?_
      rw [result.inner, Value.isTruthy_recast]
      split
      · exact .pure (.cons first results)
      · exact .pure results

theorem reduceItems_follows {items items' : List Value} (given : Value.AllMoved items items') {a b : Value}
    (start : a.Moved b) :
    Follows Value.Moved (Eval.reduceItems call f a items) (Eval.reduceItems call' f' b items') := by
  induction items generalizing items' a b with
  | nil =>
      rw [given.nil_left]
      exact .pure start
  | cons x rest ih =>
      obtain ⟨y, others, rfl, first, later⟩ := given.cons_left
      exact .bind (calls _ _ _ _ moved (.cons start (.cons first .nil))) fun _ _ result => ih later result

end

theorem wrongCount_follows (f : Native) (expected : String) {args args' : List Value}
    (given : Value.AllMoved args args') :
    Follows Value.Moved (Eval.ofOutcome (f.wrongCount expected args))
      (Eval.ofOutcome (f.wrongCount expected args')) := by
  have inner := f.wrongCount_recast .inner (Value.recast .inner) expected given.length
  have sparing := f.wrongCount_recast .sparing (Value.recast .sparing) expected (rfl : args.length = args.length)
  exact .ofOutcome (Moved.agree ⟨inner, sparing.symm⟩)

theorem reads_follows {α : Type} {read : Value → Except Value α} {act : Recast → α → α}
    (natural : ∀ (r : Recast) (v : Value), read (v.recast r) = r.carry (act r) (read v)) {v w : Value}
      (moved : v.Moved w) :
    Follows (Moved act) (Eval.ofOutcome (read v)) (Eval.ofOutcome (read w)) :=
  .ofOutcome (Moved.agree (moved.map natural))

/-- Native functions that call no others and leave the store alone compute their results naturally. -/
theorem Native.run_natural (f : Native) :
    (∃ compute, Natural compute ∧ ∀ call args, f.run call args = Eval.ofOutcome (compute args)) ∨
      f = .map ∨ f = .filter ∨ f = .reduce ∨ f = .queue ∨ f = .enqueue := by
  cases f with
  | add => exact .inl ⟨_, Compute.add_natural, fun _ _ => rfl⟩
  | sub => exact .inl ⟨_, Compute.sub_natural, fun _ _ => rfl⟩
  | mul => exact .inl ⟨_, Compute.mul_natural, fun _ _ => rfl⟩
  | div => exact .inl ⟨_, Compute.div_natural, fun _ _ => rfl⟩
  | mod => exact .inl ⟨_, Compute.mod_natural, fun _ _ => rfl⟩
  | abs => exact .inl ⟨_, Compute.abs_natural, fun _ _ => rfl⟩
  | min => exact .inl ⟨_, Compute.extreme_natural _ _, fun _ _ => rfl⟩
  | max => exact .inl ⟨_, Compute.extreme_natural _ _, fun _ _ => rfl⟩
  | equal => exact .inl ⟨_, Compute.equal_natural _ _, fun _ _ => rfl⟩
  | notEqual => exact .inl ⟨_, Compute.equal_natural _ _, fun _ _ => rfl⟩
  | less => exact .inl ⟨_, Compute.order_natural _ _, fun _ _ => rfl⟩
  | greater => exact .inl ⟨_, Compute.order_natural _ _, fun _ _ => rfl⟩
  | lessEqual => exact .inl ⟨_, Compute.order_natural _ _, fun _ _ => rfl⟩
  | greaterEqual => exact .inl ⟨_, Compute.order_natural _ _, fun _ _ => rfl⟩
  | not => exact .inl ⟨_, Compute.not_natural, fun _ _ => rfl⟩
  | len => exact .inl ⟨_, Compute.len_natural, fun _ _ => rfl⟩
  | first => exact .inl ⟨_, Compute.first_natural, fun _ _ => rfl⟩
  | rest => exact .inl ⟨_, Compute.rest_natural, fun _ _ => rfl⟩
  | nth => exact .inl ⟨_, Compute.nth_natural, fun _ _ => rfl⟩
  | cons => exact .inl ⟨_, Compute.cons_natural, fun _ _ => rfl⟩
  | append => exact .inl ⟨_, Compute.append_natural, fun _ _ => rfl⟩
  | get => exact .inl ⟨_, Compute.get_natural, fun _ _ => rfl⟩
  | assoc => exact .inl ⟨_, Compute.assoc_natural, fun _ _ => rfl⟩
  | keys => exact .inl ⟨_, Compute.keys_natural, fun _ _ => rfl⟩
  | str => exact .inl ⟨_, Compute.str_natural, fun _ _ => rfl⟩
  | upper => exact .inl ⟨_, Compute.upper_natural, fun _ _ => rfl⟩
  | lower => exact .inl ⟨_, Compute.lower_natural, fun _ _ => rfl⟩
  | error => exact .inl ⟨_, Compute.error_natural, fun _ _ => rfl⟩
  | raise => exact .inl ⟨_, Compute.raise_natural, fun _ _ => rfl⟩
  | errorName => exact .inl ⟨_, Compute.errorName_natural, fun _ _ => rfl⟩
  | errorMessage => exact .inl ⟨_, Compute.errorMessage_natural, fun _ _ => rfl⟩
  | typeOf => exact .inl ⟨_, Compute.typeOf_natural, fun _ _ => rfl⟩
  | list =>
      have natural : Natural fun args => .ok (.list args) := fun r args => by simp [Value.recast]
      exact .inl ⟨_, natural, fun _ _ => rfl⟩
  | map | filter | reduce | queue | enqueue => simp

/-- Native functions end alike on moved arguments. -/
theorem Native.run_follows {call call' : Caller} (calls : Calls call call') (f : Native) {args args' : List Value}
    (given : Value.AllMoved args args') : Follows Value.Moved (f.run call args) (f.run call' args') := by
  rcases f.run_natural with ⟨compute, natural, computed⟩ | rfl | rfl | rfl | rfl | rfl
  · rw [computed, computed]
    exact .of_natural natural given
  · -- map
    match args with
    | [g, xs] =>
        obtain ⟨g', others, rfl, function, given⟩ := given.cons_left
        obtain ⟨xs', others, rfl, list, given⟩ := given.cons_left
        obtain rfl := given.nil_left
        refine .bind (reads_follows (callable_recast · .map) function) fun h h' called => ?_
        refine .bind (reads_follows (items_recast · .map) list) fun items items' found => ?_
        exact .bind (mapItems_follows calls called found) fun _ _ results => .pure results.list
    | [] | [_] | _ :: _ :: _ :: _ =>
        have same := given.inner
        subst same
        exact wrongCount_follows .map "2" given
  · -- filter
    match args with
    | [g, xs] =>
        obtain ⟨g', others, rfl, function, given⟩ := given.cons_left
        obtain ⟨xs', others, rfl, list, given⟩ := given.cons_left
        obtain rfl := given.nil_left
        refine .bind (reads_follows (callable_recast · .filter) function) fun h h' called => ?_
        refine .bind (reads_follows (items_recast · .filter) list) fun items items' found => ?_
        exact .bind (filterItems_follows calls called found) fun _ _ results => .pure results.list
    | [] | [_] | _ :: _ :: _ :: _ =>
        have same := given.inner
        subst same
        exact wrongCount_follows .filter "2" given
  · -- reduce
    match args with
    | [g, start, xs] =>
        obtain ⟨g', others, rfl, function, given⟩ := given.cons_left
        obtain ⟨start', others, rfl, begins, given⟩ := given.cons_left
        obtain ⟨xs', others, rfl, list, given⟩ := given.cons_left
        obtain rfl := given.nil_left
        refine .bind (reads_follows (callable_recast · .reduce) function) fun h h' called => ?_
        refine .bind (reads_follows (items_recast · .reduce) list) fun items items' found => ?_
        exact reduceItems_follows calls called found begins
    | [] | [_] | [_, _] | _ :: _ :: _ :: _ :: _ =>
        have same := given.inner
        subst same
        exact wrongCount_follows .reduce "3" given
  · -- queue
    match args with
    | [] =>
        obtain rfl := given.nil_left
        refine .updateGet fun s t linked => ⟨linked.addQueue, ?_⟩
        rw [linked.queueCount]
        exact ⟨rfl, rfl⟩
    | _ :: _ =>
        have same := given.inner
        subst same
        exact wrongCount_follows .queue "0" given
  · -- enqueue
    match args with
    | [q, value] =>
        obtain ⟨q', others, rfl, target, given⟩ := given.cons_left
        obtain ⟨value', others, rfl, item, given⟩ := given.cons_left
        obtain rfl := given.nil_left
        refine .bind (reads_follows (queueId_recast · .enqueue) target) fun n n' number => ?_
        obtain rfl : n' = n := number.inner
        exact .bind (.update fun s t linked => linked.enqueue n' item) fun _ _ _ => .pure ⟨rfl, rfl⟩
    | [] | [_] | _ :: _ :: _ :: _ =>
        have same := given.inner
        subst same
        exact wrongCount_follows .enqueue "2" given

end Exemplar
