import Exemplar.Program
import Exemplar.Proofs.Coinciding
import Exemplar.Proofs.QueueOrder
import Exemplar.Proofs.Scopes

/-!
# The store only grows

Evaluation changes the store by a few operations. What each of them keeps is kept by every evaluation, also by one that
raises a value. All of them leave the frames, the entries of queues and the exported names that were there before.
-/

namespace Exemplar

def Frame.Binds (frame : Frame) (name : String) : Prop := (Keyed.find? name frame.bindings).isSome = true

namespace Store

def Publishes (s : Store) (name : String) : Prop := (Keyed.find? name s.exports).isSome = true

/-- Everything that `s` holds is still there in `t`: every frame with its enclosing frames and the names it binds, every
queue with its entries before all others, and every exported name. -/
structure Grows (s t : Store) : Prop where
  frames : ∀ (f : Nat) (frame : Frame), s.frames[f]? = some frame →
    ∃ frame' : Frame, t.frames[f]? = some frame' ∧ frame'.outer = frame.outer ∧ ∀ name, frame.Binds name → frame'.Binds name
  queues : ∀ (q : Nat) (entries : Array Value), s.queues[q]? = some entries →
    ∃ entries' : Array Value, t.queues[q]? = some entries' ∧ entries.toList <+: entries'.toList
  exports : ∀ name, s.Publishes name → t.Publishes name

variable {s t u : Store}

theorem Grows.refl (s : Store) : s.Grows s where
  frames _ frame found := ⟨frame, found, rfl, fun _ binds => binds⟩
  queues _ entries found := ⟨entries, found, List.prefix_refl _⟩
  exports _ published := published

theorem Grows.trans (first : s.Grows t) (second : t.Grows u) : s.Grows u where
  frames f frame found := by
    obtain ⟨frame', found', outer', binds'⟩ := first.frames f frame found
    obtain ⟨frame'', found'', outer'', binds''⟩ := second.frames f frame' found'
    exact ⟨frame'', found'', outer''.trans outer', fun name binds => binds'' name (binds' name binds)⟩
  queues q entries found := by
    obtain ⟨entries', found', before'⟩ := first.queues q entries found
    obtain ⟨entries'', found'', before''⟩ := second.queues q entries' found'
    exact ⟨entries'', found'', before'.trans before''⟩
  exports name published := second.exports name (first.exports name published)

/-! ## Operations on the store -/

theorem grows_child (s : Store) (f : Nat) (bindings : List (String × Value)) : s.Grows (s.child f bindings) where
  frames g frame found := by
    have inside : g < s.frames.size := (Array.getElem?_eq_some_iff.mp found).1
    refine ⟨frame, ?_, rfl, fun _ binds => binds⟩
    rw [child, Array.getElem?_push, if_neg (Nat.ne_of_lt inside), found]
  queues := (Grows.refl s).queues
  exports := (Grows.refl s).exports

theorem grows_define (s : Store) (f : Nat) (name : String) (value : Value) : s.Grows (s.define f name value) where
  frames g frame found := by
    by_cases same : f = g
    · refine ⟨{ frame with bindings := Keyed.insert name value frame.bindings }, ?_, rfl, fun other binds => ?_⟩
      · rw [define, Array.getElem?_modify, if_pos same, found]
        rfl
      · rw [Frame.Binds, Keyed.find?_insert]
        split
        · rfl
        · exact binds
    · refine ⟨frame, ?_, rfl, fun _ binds => binds⟩
      rw [define, Array.getElem?_modify, if_neg same, found]
  queues := (Grows.refl s).queues
  exports := (Grows.refl s).exports

theorem grows_addQueue (s : Store) : s.Grows s.addQueue where
  frames := (Grows.refl s).frames
  queues q entries found := by
    have inside : q < s.queues.size := (Array.getElem?_eq_some_iff.mp found).1
    refine ⟨entries, ?_, List.prefix_refl _⟩
    rw [addQueue, Array.getElem?_push, if_neg (Nat.ne_of_lt inside), found]
  exports := (Grows.refl s).exports

theorem grows_enqueue (s : Store) (q : Nat) (value : Value) : s.Grows (s.enqueue q value) where
  frames := (Grows.refl s).frames
  queues p entries found := by
    by_cases same : q = p
    · refine ⟨entries.push value, ?_, ?_⟩
      · rw [enqueue, Array.getElem?_modify, if_pos same, found]
        rfl
      · rw [Array.toList_push]
        exact List.prefix_append _ _
    · refine ⟨entries, ?_, List.prefix_refl _⟩
      rw [enqueue, Array.getElem?_modify, if_neg same, found]
  exports := (Grows.refl s).exports

theorem grows_publish (s : Store) (name : String) (value : Value) : s.Grows (s.publish name value) where
  frames := (Grows.refl s).frames
  queues := (Grows.refl s).queues
  exports other published := by
    rw [Publishes, publish, Keyed.find?_insert]
    split
    · rfl
    · exact published

/-- A property of stores that every change made by evaluation keeps. -/
structure Stable (holds : Store → Prop) : Prop where
  child {s : Store} (f : Nat) (bindings : List (String × Value)) : holds s → holds (s.child f bindings)
  define {s : Store} (f : Nat) (name : String) (value : Value) : holds s → holds (s.define f name value)
  addQueue {s : Store} : holds s → holds s.addQueue
  enqueue {s : Store} (q : Nat) (value : Value) : holds s → holds (s.enqueue q value)
  publish {s : Store} (name : String) (value : Value) : holds s → holds (s.publish name value)
  countClosure {s : Store} : holds s → holds s.countClosure
  descend {s : Store} : holds s → holds s.descend
  ascend {s : Store} : holds s → holds s.ascend

theorem grows_stable (s : Store) : Stable s.Grows where
  child f bindings grows := grows.trans (grows_child _ f bindings)
  define f name value grows := grows.trans (grows_define _ f name value)
  addQueue grows := grows.trans (grows_addQueue _)
  enqueue q value grows := grows.trans (grows_enqueue _ q value)
  publish name value grows := grows.trans (grows_publish _ name value)
  countClosure grows := { grows with }
  descend grows := { grows with }
  ascend grows := { grows with }

/-- Equal stores with a property. -/
def Sharing (holds : Store → Prop) (s t : Store) : Prop := s = t ∧ holds s

theorem Stable.bisimulation {holds : Store → Prop} (stable : Stable holds) : Bisimulation (Sharing holds) where
  lookup f name alike := by rw [alike.1]
  frames alike := by rw [alike.1]
  queues alike := by rw [alike.1]
  closures alike := by rw [alike.1]
  child f bindings alike := ⟨by rw [alike.1], stable.child f bindings alike.2⟩
  define f name value alike := ⟨by rw [alike.1], stable.define f name value alike.2⟩
  assign f name value alike := ⟨by rw [alike.1], stable.define _ name value alike.2⟩
  addQueue alike := ⟨by rw [alike.1], stable.addQueue alike.2⟩
  enqueue q value alike := ⟨by rw [alike.1], stable.enqueue q value alike.2⟩
  publish name value alike := ⟨by rw [alike.1], stable.publish name value alike.2⟩
  countClosure alike := ⟨by rw [alike.1], stable.countClosure alike.2⟩

end Store

/-! ## Evaluation -/

namespace Eval

/-- A computation keeps a property of the store, however it ends. -/
def Keeps {α : Type} (holds : Store → Prop) (x : Eval α) : Prop := ∀ s, holds s → holds (x.run.run s).2

variable {holds : Store → Prop}

theorem Keeps.of_coincide {α : Type} {x : Eval α}
    (coincide : Coincide (Store.Sharing holds) (fun _ => False) x x) : Keeps holds x := by
  intro s initially
  rcases coincide s s ⟨rfl, initially⟩ with ⟨_, _, impossible⟩ | ⟨_, _, behind⟩
  · exact impossible.elim
  · exact behind

section

variable (stable : Store.Stable holds)

include stable

theorem enter_stable {call : Caller}
    (calls : ∀ f args, Coincide (Store.Sharing holds) (fun _ => False) (call f args) (call f args)) (c : Closure)
    (args : List Value) : Coincide (Store.Sharing holds) (fun _ => False) (c.enter call args) (c.enter call args) := by
  apply enter_coincide stable.bisimulation stable.bisimulation _ _ calls
  · rintro s t ⟨rfl, here⟩
    exact ⟨rfl, stable.descend here⟩
  · rintro s t ⟨rfl, here⟩
    exact ⟨rfl, stable.ascend here⟩

theorem applyAt_stable (room : Nat) (f : Value) (args : List Value) :
    Coincide (Store.Sharing holds) (fun _ => False) (applyAt room f args) (applyAt room f args) := by
  induction room generalizing f args with
  | zero =>
      apply applyWith_coincide _ stable.bisimulation
      rintro c args s t ⟨rfl, here⟩
      exact .inr ⟨rfl, rfl, here⟩
  | succ room ih => exact applyWith_coincide (enter_stable stable ih) stable.bisimulation f args

theorem body_keeps (room scope : Nat) (last : Value) (forms : List Form) :
    Keeps holds (body (applyAt room) scope last forms) :=
  .of_coincide (body_coincide (fun x _ => form_coincide stable.bisimulation (applyAt_stable stable room) x) scope last)

theorem program_keeps (scope : Nat) (forms : List Form) : Keeps holds (program scope forms) :=
  fun s initially => body_keeps stable s.room scope .nil forms s initially

theorem apply_keeps (f : Value) (args : List Value) : Keeps holds (apply f args) :=
  fun s initially => Keeps.of_coincide (applyAt_stable stable s.room f args) s initially

end

/-- What the first computation did stays, whichever of the two raises a value. -/
theorem grows_bind {α β : Type} {x : Eval α} {next : α → Eval β}
    (later : ∀ a s, Keeps (Store.Grows s) (next a)) (s : Store) :
    (x.run.run s).2.Grows ((x >>= next).run.run s).2 := by
  rw [run_bind]
  generalize x.run.run s = first
  obtain ⟨outcome, t⟩ := first
  cases outcome with
  | ok a => exact later a t t (.refl t)
  | error raised => exact .refl t

/-- What a beginning of a body did stays behind the whole body. -/
theorem body_grows_append (room scope : Nat) (last : Value) (left right : List Form) (s : Store) :
    ((body (applyAt room) scope last left).run.run s).2.Grows
      ((body (applyAt room) scope last (left ++ right)).run.run s).2 := by
  rw [body_append]
  exact grows_bind (fun value t => body_keeps (Store.grows_stable t) room scope value right) s

/-- A program runs its forms on one store, up to the first that raises a value. -/
theorem program_append (scope : Nat) (left right : List Form) (s : Store) :
    (program scope (left ++ right)).run.run s =
      match (program scope left).run.run s with
      | (.ok value, t) => (body (applyAt s.room) scope value right).run.run t
      | (.error raised, t) => (.error raised, t) := by
  have begun (forms : List Form) :
      (program scope forms).run.run s = (body (applyAt s.room) scope .nil forms).run.run s := rfl
  rw [begun, begun, body_append, run_bind]
  generalize (body (applyAt s.room) scope .nil left).run.run s = first
  obtain ⟨outcome, t⟩ := first
  cases outcome <;> rfl

/-- Evaluation only adds to the store, whether it ends with a value or raises one: a program, a call, and the examples of
a queue one after another. Nothing is taken back when a value is raised: what a beginning of a body did is still there
behind the whole body, and a program of which a beginning raises a value leaves the very store of that beginning. -/
theorem evaluation_grows (s : Store) :
    (∀ scope forms, s.Grows ((program scope forms).run.run s).2) ∧
    (∀ f args, s.Grows ((apply f args).run.run s).2) ∧
    (∀ waiting entries, s.Grows ((Verdict.run Program.invoke waiting entries).run s).2) ∧
    (∀ room scope last left right, ((body (applyAt room) scope last left).run.run s).2.Grows
      ((body (applyAt room) scope last (left ++ right)).run.run s).2) ∧
    ∀ scope left right, (program scope (left ++ right)).run.run s =
      match (program scope left).run.run s with
      | (.ok value, t) => (body (applyAt s.room) scope value right).run.run t
      | (.error raised, t) => (.error raised, t) := by
  have stable := Store.grows_stable s
  refine ⟨fun scope forms => program_keeps stable scope forms s (.refl s),
    fun f args => apply_keeps stable f args s (.refl s), fun waiting entries => ?_,
    fun room scope last left right => body_grows_append room scope last left right s,
    fun scope left right => program_append scope left right s⟩
  exact Verdict.run_keeps Program.invoke (fun thunk t => apply_keeps stable thunk [] t) waiting entries (.refl s)

end Eval

end Exemplar
