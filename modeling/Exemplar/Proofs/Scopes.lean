import Exemplar.Proofs.Recasting
import Exemplar.Store

/-!
# What the store holds

Each operation on the store by what it does to the bindings of frames, to the chains of frames in which names are
looked for, and to queues.
-/

namespace Exemplar

namespace Keyed

variable {κ ν : Type} [Ord κ] [Std.LawfulEqOrd κ] [DecidableEq κ]

theorem find?_cons (key own : κ) (value : ν) (rest : List (κ × ν)) :
    find? key ((own, value) :: rest) = if key = own then some value else find? key rest := by
  by_cases same : key = own
  · simp [find?, same, Std.ReflCmp.compare_self]
  · have differs : compare key own ≠ .eq := fun equal => same (Std.LawfulEqCmp.eq_of_compare equal)
    rw [if_neg same, find?]
    split
    · next equal => exact absurd equal differs
    · rfl

theorem find?_insert (key other : κ) (value : ν) (pairs : List (κ × ν)) :
    find? other (insert key value pairs) = if other = key then some value else find? other pairs := by
  induction pairs with
  | nil => exact find?_cons other key value []
  | cons pair rest ih =>
      obtain ⟨own, old⟩ := pair
      rw [insert]
      split
      · exact find?_cons other key value ((own, old) :: rest)
      · next equal =>
          obtain rfl := Std.LawfulEqCmp.eq_of_compare equal
          rw [find?_cons, find?_cons]
          split <;> rfl
      · next greater =>
          rw [find?_cons, find?_cons, ih]
          split
          · next same =>
              subst same
              have differs : other ≠ key := by
                rintro rfl
                simp [Std.ReflCmp.compare_self] at greater
              rw [if_neg differs]
          · rfl

end Keyed

namespace Store

variable (s : Store)

@[simp] theorem size_define (f : Nat) (name : String) (value : Value) :
    (s.define f name value).frames.size = s.frames.size := by
  simp [define]

@[simp] theorem size_child (f : Nat) (bindings : List (String × Value)) :
    (s.child f bindings).frames.size = s.frames.size + 1 := by
  simp [child]

@[simp] theorem chain_define (f g : Nat) (name : String) (value : Value) :
    (s.define f name value).chain g = s.chain g := by
  simp only [chain, define, Array.getElem?_modify]
  split
  · cases s.frames[g]? <;> rfl
  · rfl

theorem binding?_define (f g : Nat) (name other : String) (value : Value) :
    (s.define f name value).binding? g other =
      if g = f ∧ f < s.frames.size ∧ other = name then some value else s.binding? g other := by
  simp only [binding?, define, Array.getElem?_modify]
  by_cases same : f = g
  · subst same
    by_cases inside : f < s.frames.size
    · simp [inside, Keyed.find?_insert]
    · simp [inside]
  · have differs : ¬ g = f := fun equal => same equal.symm
    simp [same, differs]

theorem chain_child (f g : Nat) (bindings : List (String × Value)) :
    (s.child f bindings).chain g = if g = s.frames.size then g :: s.chain f else s.chain g := by
  simp only [chain, child, Array.getElem?_push]
  split <;> rfl

theorem binding?_child (f g : Nat) (bindings : List (String × Value)) (name : String) :
    (s.child f bindings).binding? g name =
      if g = s.frames.size then Keyed.find? name bindings else s.binding? g name := by
  simp only [binding?, child, Array.getElem?_push]
  split <;> rfl

@[simp] theorem queue_addQueue (q : Nat) : s.addQueue.queue q = s.queue q := by
  simp only [queue, addQueue, Array.getElem?_push]
  split
  · next last => simp [last]
  · rfl

theorem queue_enqueue (q p : Nat) (value : Value) :
    (s.enqueue q value).queue p = if p = q ∧ q < s.queues.size then s.queue p ++ [value] else s.queue p := by
  simp only [queue, enqueue, Array.getElem?_modify]
  by_cases same : q = p
  · subst same
    by_cases inside : q < s.queues.size <;> simp [inside]
  · have differs : ¬ p = q := fun equal => same equal.symm
    simp [same, differs]

theorem queue_drain (q p : Nat) : (s.drain q).queue p = if p = q then [] else s.queue p := by
  simp only [queue, drain, Array.getElem?_modify]
  by_cases same : q = p
  · subst same
    by_cases inside : q < s.queues.size <;> simp [inside]
  · have differs : ¬ p = q := fun equal => same equal.symm
    simp [same, differs]

/-! ## The store before a program -/

/-- A store before a program: one frame, without functions of a program, and empty queues. -/
structure Fresh (s : Store) : Prop where
  single : s.frames.size = 1
  outermost : s.chain 0 = [0]
  plain : ∀ r name, (s.binding? 0 name).map (Value.recast r) = s.binding? 0 name
  noItems : ∀ q, s.queue q = []

theorem Fresh.define {s : Store} (fresh : s.Fresh) (name : String) {value : Value}
    (fixed : ∀ r, value.recast r = value) :
    (s.define 0 name value).Fresh where
  single := by rw [size_define]; exact fresh.single
  outermost := by rw [chain_define]; exact fresh.outermost
  plain r other := by
    rw [binding?_define]
    split
    · rw [Option.map_some, fixed]
    · exact fresh.plain r other
  noItems := fresh.noItems

theorem Fresh.addQueue {s : Store} (fresh : s.Fresh) : s.addQueue.Fresh :=
  { fresh with noItems := fun q => by rw [queue_addQueue]; exact fresh.noItems q }

theorem natives_fresh (natives : List Native) {s : Store} (fresh : s.Fresh) :
    (natives.foldl (fun s f => s.define 0 f.name (.native f)) s).Fresh := by
  induction natives generalizing s with
  | nil => exact fresh
  | cons f rest ih => exact ih (fresh.define f.name fun _ => rfl)

theorem empty_fresh (limit : Nat) : (empty limit).Fresh := ⟨rfl, rfl, fun _ _ => rfl, fun _ => rfl⟩

theorem standard_fresh (limit : Nat) : (standard limit).Fresh := natives_fresh Native.all (empty_fresh limit)

theorem standard_queues : standard.queues = #[] := by
  have each (natives : List Native) (s : Store) :
      (natives.foldl (fun s f => s.define 0 f.name (.native f)) s).queues = s.queues := by
    induction natives generalizing s with
    | nil => rfl
    | cons f rest ih => exact ih (s.define 0 f.name (.native f))
  exact each Native.all (empty defaultLimit)

/-- Each native function has its own name, so that none hides another. -/
theorem binding?_natives {natives : List Native} (distinct : (natives.map Native.name).Nodup) {s : Store}
    (fresh : s.Fresh) (name : String) :
    (natives.foldl (fun s f => s.define 0 f.name (.native f)) s).binding? 0 name =
      ((natives.find? (·.name == name)).map Value.native).or (s.binding? 0 name) := by
  induction natives generalizing s with
  | nil => rfl
  | cons f rest ih =>
      rw [List.map_cons, List.nodup_cons] at distinct
      rw [List.foldl_cons, ih distinct.2 (fresh.define f.name fun _ => rfl), binding?_define, fresh.single,
        List.find?_cons]
      by_cases same : name = f.name
      · subst same
        have noOther : rest.find? (·.name == f.name) = none := by
          rw [List.find?_eq_none]
          intro g member equal
          exact distinct.1 (List.mem_map.mpr ⟨g, member, by simpa using equal⟩)
        simp [noOther]
      · have differs : (f.name == name) = false := by simpa using fun equal => same equal.symm
        simp [differs, same]

theorem lookup_standard (limit : Nat) (f : Native) : (standard limit).lookup? 0 f.name = some (.native f) := by
  have distinct : (Native.all.map Native.name).Nodup := by decide
  have found : Native.all.find? (·.name == f.name) = some f := by cases f <;> rfl
  have bound := binding?_natives distinct (empty_fresh limit) f.name
  rw [found] at bound
  rw [lookup?, (standard_fresh limit).outermost, List.findSome?_singleton]
  exact bound

end Store

end Exemplar
