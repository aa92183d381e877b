import Exemplar.Program
import Exemplar.Proofs.Coinciding
import Exemplar.Proofs.QueueOrder

/-!
# Every evaluation ends

A call is one application that makes further calls. Unfolded a bounded number of times it comes to its outcome, whatever
stands for the calls inside the innermost ones: these are never made. While a computation runs, no more calls are nested
than the limit allows, and behind it as many are nested as before.
-/

namespace Exemplar

namespace Store

/-- The store has `depth` calls nested under `limit`, and never had more than `bound`. -/
structure Level (depth limit bound : Nat) (s : Store) : Prop where
  depth_eq : s.depth = depth
  limit_eq : s.limit = limit
  deepest_le : s.deepest ≤ bound

/-- Equal stores at one level. -/
def Same (depth limit bound : Nat) (s t : Store) : Prop := s = t ∧ Level depth limit bound s

variable {depth limit bound : Nat}

theorem Same.bisimulation : Bisimulation (Same depth limit bound) where
  lookup f name alike := by rw [alike.1]
  frames alike := by rw [alike.1]
  queues alike := by rw [alike.1]
  closures alike := by rw [alike.1]
  child f bindings alike := ⟨by rw [alike.1], { alike.2 with }⟩
  define f name value alike := ⟨by rw [alike.1], { alike.2 with }⟩
  assign f name value alike := ⟨by rw [alike.1], { alike.2 with }⟩
  addQueue alike := ⟨by rw [alike.1], { alike.2 with }⟩
  enqueue q value alike := ⟨by rw [alike.1], { alike.2 with }⟩
  publish name value alike := ⟨by rw [alike.1], { alike.2 with }⟩
  countClosure alike := ⟨by rw [alike.1], { alike.2 with }⟩

theorem Level.descend {s : Store} (level : Level depth limit bound s) (room : depth < limit) (within : limit ≤ bound) :
    Level (depth + 1) limit bound s.descend where
  depth_eq := by rw [Store.descend, level.depth_eq]
  limit_eq := level.limit_eq
  deepest_le := by
    have deepest := level.deepest_le
    have depth := level.depth_eq
    simp only [Store.descend]
    omega

theorem Level.ascend {s : Store} (level : Level (depth + 1) limit bound s) : Level depth limit bound s.ascend where
  depth_eq := by rw [Store.ascend, level.depth_eq, Nat.add_sub_cancel]
  limit_eq := level.limit_eq
  deepest_le := level.deepest_le

end Store

namespace Eval

/-- Applies a value once, with the calls inside made by `call`. A function of the program is entered only while fewer
calls are nested than the limit allows. -/
def applyOnce (call : Caller) : Caller
  | .closure c, args => do
      let s ← get
      if s.depth < s.limit then c.enter call args else throw (tooDeep s.limit)
  | .native f, args => f.run call args
  | other, _ => throw (notCallable other)

/-- Applications inside each other, `n` deep; the calls inside the innermost are made by `base`. -/
def unfolded (base : Caller) : (n : Nat) → Caller
  | 0 => base
  | n + 1 => applyOnce (unfolded base n)

section

variable {depth limit bound : Nat}

theorem enter_same {call call' : Caller} (room : depth < limit) (within : limit ≤ bound)
    (calls : ∀ f args,
      Coincide (Store.Same (depth + 1) limit bound) (fun _ => False) (call f args) (call' f args))
    (c : Closure) (args : List Value) :
    Coincide (Store.Same depth limit bound) (fun _ => False) (c.enter call args) (c.enter call' args) := by
  apply enter_coincide Store.Same.bisimulation Store.Same.bisimulation _ _ calls
  · rintro s t ⟨rfl, level⟩
    exact ⟨rfl, level.descend room within⟩
  · rintro s t ⟨rfl, level⟩
    exact ⟨rfl, level.ascend⟩

theorem applyOnce_closure (call : Caller) (c : Closure) (args : List Value) (s : Store) :
    (applyOnce call (.closure c) args).run.run s =
      (if s.depth < s.limit then c.enter call args else throw (tooDeep s.limit)).run.run s := rfl

/-- A call to a function of the program unfolds once more than the calls in its body do, which may nest one less. -/
theorem unfolded_closure (within : limit ≤ bound) {call : Caller}
    (calls : depth < limit → ∀ f args, Coincide (Store.Same (depth + 1) limit bound) (fun _ => False) (call f args)
      (applyAt (limit - (depth + 1)) f args))
    (c : Closure) (args : List Value) :
    Coincide (Store.Same depth limit bound) (fun _ => False) (applyOnce call (.closure c) args)
      (applyAt (limit - depth) (.closure c) args) := by
  rintro s t ⟨rfl, level⟩
  rw [applyOnce_closure, level.depth_eq, level.limit_eq]
  by_cases room : depth < limit
  · have more : limit - depth = limit - (depth + 1) + 1 := by omega
    rw [if_pos room, more]
    exact enter_same room within (calls room) c args s s ⟨rfl, level⟩
  · have none : limit - depth = 0 := by omega
    have limits := level.limit_eq
    subst limits
    rw [if_neg room, none]
    exact .inr ⟨rfl, rfl, level⟩

/-- Native functions call with fewer arguments than their own, and with fewer than three. -/
theorem unfolded_native {base : Caller} (least : Nat) {room : Nat}
    (closures : ∀ n, least ≤ n → ∀ c args, Coincide (Store.Same depth limit bound) (fun _ => False)
      (unfolded base (n + 1) (.closure c) args) (applyAt room (.closure c) args))
    (width : Nat) {n : Nat} (enough : least + width ≤ n) (f : Value) (args : List Value)
    (few : args.length ≤ width ∨ 3 ≤ width) :
    Coincide (Store.Same depth limit bound) (fun _ => False) (unfolded base (n + 1) f args) (applyAt room f args) := by
  induction width generalizing n f args with
  | zero =>
      cases f with
      | closure c => exact closures n enough c args
      | native f =>
          rw [applyAt_native]
          apply f.run_coincide Store.Same.bisimulation args
          intro g given fewer _
          omega
      | _ => cases room <;> exact .throw _
  | succ width ih =>
      cases f with
      | closure c => exact closures n (by omega) c args
      | native f =>
          rw [applyAt_native]
          apply f.run_coincide Store.Same.bisimulation args
          intro g given fewer few
          obtain ⟨m, rfl⟩ : ∃ m, n = m + 1 := ⟨n - 1, by omega⟩
          exact ih (by omega) g given (by omega)
      | _ => cases room <;> exact .throw _

/-- Four applications for each call that may still be nested are enough: a function of the program, and native functions
that call each other with three, two and fewer arguments. -/
theorem unfolded_coincide (base : Caller) (within : limit ≤ bound) {n : Nat}
    (enough : 4 * (limit - depth + 1) ≤ n) (f : Value) (args : List Value) :
    Coincide (Store.Same depth limit bound) (fun _ => False) (unfolded base n f args)
      (applyAt (limit - depth) f args) := by
  induction left : limit - depth using Nat.strongRecOn generalizing depth n f args with
  | ind room ih =>
      obtain ⟨m, rfl⟩ : ∃ m, n = m + 1 := ⟨n - 1, by omega⟩
      apply unfolded_native (4 * room) _ 3 (by omega) f args (.inr (Nat.le_refl 3))
      intro k least c args
      rw [← left]
      apply unfolded_closure within
      intro deeper g given
      exact ih (limit - (depth + 1)) (by omega) (by omega) g given rfl

end

/-- A computation that makes calls ends from the store `s`: with calls unfolded it comes to the outcome of `x` whatever
stands for the calls at the bottom, and it leaves as many calls nested as before, having nested no more than the limit
allows. -/
structure Ends (s : Store) (x : Eval Value) (calling : Caller → Eval Value) : Prop where
  bottomless : ∀ base, (calling (unfolded base (4 * (s.room + 1)))).run.run s = x.run.run s
  depth_eq : (x.run.run s).2.depth = s.depth
  limit_eq : (x.run.run s).2.limit = s.limit
  deepest_le : (x.run.run s).2.deepest ≤ max s.deepest s.limit

theorem Ends.of_coincide {s : Store} {x : Eval Value} {calling : Caller → Eval Value}
    (coincide : ∀ base, Coincide (Store.Same s.depth s.limit (max s.deepest s.limit)) (fun _ => False)
      (calling (unfolded base (4 * (s.room + 1)))) x) : Ends s x calling := by
  have start : Store.Same s.depth s.limit (max s.deepest s.limit) s s := ⟨rfl, rfl, rfl, Nat.le_max_left _ _⟩
  have ran (base : Caller) : (calling (unfolded base (4 * (s.room + 1)))).run.run s = x.run.run s ∧
      Store.Level s.depth s.limit (max s.deepest s.limit) (x.run.run s).2 := by
    rcases coincide base s s start with ⟨_, _, impossible⟩ | ⟨outcome, store, level⟩
    · exact impossible.elim
    · exact ⟨Prod.ext outcome store, store ▸ level⟩
  obtain ⟨depth, limit, deepest⟩ := (ran fun _ _ => pure .nil).2
  exact ⟨fun base => (ran base).1, depth, limit, deepest⟩

theorem program_ends (s : Store) (scope : Nat) (forms : List Form) :
    Ends s (program scope forms) fun call => body call scope .nil forms := by
  have ends : Ends s (body (applyAt s.room) scope .nil forms) fun call => body call scope .nil forms := by
    apply Ends.of_coincide
    intro base
    apply body_coincide
    intro x _
    apply form_coincide Store.Same.bisimulation
    exact unfolded_coincide base (Nat.le_max_right _ _) (Nat.le_refl _)
  exact { ends with }

theorem apply_ends (s : Store) (f : Value) (args : List Value) :
    Ends s (apply f args) fun call => call f args := by
  have ends : Ends s (applyAt s.room f args) fun call => call f args := by
    apply Ends.of_coincide
    intro base
    exact unfolded_coincide base (Nat.le_max_right _ _) (Nat.le_refl _) f args
  exact { ends with }

/-- Every program and every call ends, with a value or a raised value, in a bounded number of nested applications; it
never nests more calls than the limit allows and leaves as many nested as there were. So every example of a queue has the
same room for calls, whatever the examples before it raised. -/
theorem evaluation_ends (s : Store) :
    (∀ scope forms, Ends s (program scope forms) fun call => body call scope .nil forms) ∧
    (∀ f args, Ends s (apply f args) fun call => call f args) ∧
    ∀ waiting entries, ((Verdict.run Program.invoke waiting entries).run s).2.room = s.room := by
  refine ⟨program_ends s, apply_ends s, fun waiting entries => ?_⟩
  have keep (thunk : Value) (t : Store) (same : t.room = s.room) : ((Program.invoke thunk).run t).2.room = s.room := by
    have ends := apply_ends t thunk []
    rw [← same, Store.room, Store.room]
    exact congr (congrArg _ ends.limit_eq) ends.depth_eq
  exact Verdict.run_keeps Program.invoke keep waiting entries rfl

end Eval

end Exemplar
