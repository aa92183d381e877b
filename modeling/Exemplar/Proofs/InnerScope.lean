import Exemplar.Harness
import Exemplar.Proofs.Scopes

/-!
# Stores with a frame put below the program

Two stores are linked when the second holds the program in a frame inside its outermost one. The frame that the
program starts in and the one around it together bind what the outermost frame of the first store binds, and every
other frame has a number one higher.
-/

namespace Exemplar

namespace Form

/-- Whether the items of a round group are an assignment to the name. -/
def isAssignment (name : String) : List Form → Bool
  | [.atom (.symbol "set!"), .atom (.symbol target), _] => target == name
  | _ => false

mutual

/-- Whether an assignment to the name stands anywhere in a form. -/
def assigns (name : String) : Form → Bool
  | .atom _ => false
  | .quote inner => assigns name inner
  | .group bracket items => (bracket = .round && isAssignment name items) || anyAssigns name items

def anyAssigns (name : String) : List Form → Bool
  | [] => false
  | item :: rest => assigns name item || anyAssigns name rest

end

end Form

namespace Recast

/-- Functions as they are when the program runs one frame further in. -/
def inner : Recast := ⟨fun c => { c with scope := c.scope + 1 }, fun _ => rfl, fun _ => rfl⟩

/-- Functions without bodies that assign to the queue's name: values that this keeps hold none. -/
def sparing : Recast where
  closure c := if Form.anyAssigns Harness.queueName c.body then { c with body := [] } else c
  id_eq c := by split <;> rfl
  name_eq c := by split <;> rfl

theorem sparing_closure {c : Closure} :
    (Value.closure c).recast sparing = .closure c ↔ Form.anyAssigns Harness.queueName c.body = false := by
  rw [Value.recast, Value.closure.injEq, sparing]
  dsimp only
  split
  · next assigns =>
      constructor
      · intro same
        have body : [] = c.body := congrArg Closure.body same
        rw [← body] at assigns
        cases assigns
      · intro none
        rw [assigns] at none
        cases none
  · next none => simpa using none

end Recast

/-- `b` is `a` as it is one frame further in, and `a` holds no function that assigns to the queue's name. -/
structure Moved {α : Type} (act : Recast → α → α) (a b : α) : Prop where
  inner : b = act .inner a
  sparing : act .sparing a = a

namespace Moved

variable {α β γ : Type} {act : Recast → α → α} {act' : Recast → β → β} {act'' : Recast → γ → γ} {a a' : α} {b b' : β}

/-- What goes along with recasting takes moved arguments to moved results. -/
theorem map {f : α → β} (natural : ∀ r a, f (act r a) = act' r (f a)) (moved : Moved act a a') :
    Moved act' (f a) (f a') where
  inner := by rw [moved.inner, natural]
  sparing := by rw [← natural, moved.sparing]

theorem map₂ {f : α → β → γ} (natural : ∀ r a b, f (act r a) (act' r b) = act'' r (f a b)) (moved : Moved act a a')
    (moved' : Moved act' b b') : Moved act'' (f a b) (f a' b') where
  inner := by rw [moved.inner, moved'.inner, natural]
  sparing := by rw [← natural, moved.sparing, moved'.sparing]

end Moved

/-- A value one frame further in. -/
abbrev Value.Moved (v w : Value) : Prop := Exemplar.Moved Value.recast v w

abbrev Value.AllMoved (vs ws : List Value) : Prop := Exemplar.Moved (fun r => List.map (Value.recast r)) vs ws

abbrev Value.PairsMoved {κ : Type} (pairs others : List (κ × Value)) : Prop :=
  Exemplar.Moved (fun r => List.map fun pair => (pair.1, pair.2.recast r)) pairs others

abbrev Value.OptionMoved (v w : Option Value) : Prop := Exemplar.Moved (fun r => Option.map (Value.recast r)) v w

namespace Store

/-- The frames that stand for a frame one frame further in: the program's own and the one around it for the
outermost. -/
def inward : Nat → List Nat
  | 0 => [1, 0]
  | f + 1 => [f + 2]

/-- The second store holds the program of the first one frame further in. -/
structure Linked (s t : Store) : Prop where
  nonempty : 0 < s.frames.size
  size : t.frames.size = s.frames.size + 1
  chain : ∀ f, t.chain (f + 1) = (s.chain f).flatMap inward
  binding : ∀ f name, Value.OptionMoved (s.binding? (f + 1) name) (t.binding? (f + 2) name)
  shared : ∀ name, Value.OptionMoved (s.binding? 0 name) ((t.binding? 1 name).or (t.binding? 0 name))
  queueName : t.binding? 0 Harness.queueName = some (.queue 0)
  queues : ∀ q, Value.AllMoved (s.queue q) (t.queue q)
  queueCount : t.queues.size = s.queues.size
  closures : t.closures = s.closures
  limit : t.limit = s.limit
  depth : t.depth = s.depth

namespace Linked

variable {s t : Store}

theorem room (linked : Linked s t) : t.room = s.room := by rw [Store.room, Store.room, linked.limit, linked.depth]

theorem lookup (linked : Linked s t) (f : Nat) (name : String) :
    Value.OptionMoved (s.lookup? f name) (t.lookup? (f + 1) name) := by
  rw [lookup?, lookup?, linked.chain]
  induction s.chain f with
  | nil => exact ⟨rfl, rfl⟩
  | cons g rest ih =>
      have first : Value.OptionMoved (s.binding? g name) ((inward g).findSome? (t.binding? · name)) := by
        cases g with
        | zero =>
            have both : [1, 0].findSome? (t.binding? · name) = (t.binding? 1 name).or (t.binding? 0 name) := by
              rw [← List.singleton_append, List.findSome?_append, List.findSome?_singleton, List.findSome?_singleton]
            rw [inward, both]
            exact linked.shared name
        | succ g =>
            rw [inward, List.findSome?_singleton]
            exact linked.binding g name
      rw [List.flatMap_cons, List.findSome?_append, ← List.singleton_append, List.findSome?_append,
        List.findSome?_singleton]
      exact Moved.map₂ (fun r a b => by cases a <;> rfl) first ih

theorem someMoved {v w : Value} (moved : v.Moved w) : Value.OptionMoved (some v) (some w) :=
  Moved.map (fun _ _ => rfl) moved

theorem define (linked : Linked s t) (f : Nat) (name : String) {v w : Value} (moved : v.Moved w) :
    Linked (s.define f name v) (t.define (f + 1) name w) where
  nonempty := by rw [size_define]; exact linked.nonempty
  size := by rw [size_define, size_define]; exact linked.size
  chain g := by rw [chain_define, chain_define]; exact linked.chain g
  binding g other := by
    rw [binding?_define, binding?_define]
    have size := linked.size
    by_cases here : g + 1 = f ∧ f < s.frames.size ∧ other = name
    · rw [if_pos here, if_pos ⟨by omega, by omega, here.2.2⟩]
      exact someMoved moved
    · rw [if_neg here, if_neg fun all => here ⟨by omega, by omega, all.2.2⟩]
      exact linked.binding g other
  shared other := by
    rw [binding?_define, binding?_define, binding?_define]
    have size := linked.size
    have outside : ¬ (0 = f + 1 ∧ f + 1 < t.frames.size ∧ other = name) := fun all => by omega
    rw [if_neg outside]
    by_cases here : 0 = f ∧ f < s.frames.size ∧ other = name
    · rw [if_pos here, if_pos ⟨by omega, by omega, here.2.2⟩]
      exact someMoved moved
    · rw [if_neg here, if_neg fun all => here ⟨by omega, by omega, all.2.2⟩]
      exact linked.shared other
  queueName := by
    rw [binding?_define, if_neg (by omega)]
    exact linked.queueName
  queues := linked.queues
  queueCount := linked.queueCount
  closures := linked.closures
  limit := linked.limit
  depth := linked.depth

/-- A definition in the outermost frame, of a name that the frame around the program is to bind. -/
theorem defineAround (linked : Linked s t) {name : String} (other : name ≠ Harness.queueName)
    (free : t.binding? 1 name = none) {v w : Value} (moved : v.Moved w) :
    Linked (s.define 0 name v) (t.define 0 name w) where
  nonempty := by rw [size_define]; exact linked.nonempty
  size := by rw [size_define, size_define]; exact linked.size
  chain g := by rw [chain_define, chain_define]; exact linked.chain g
  binding g any := by
    rw [binding?_define, binding?_define, if_neg (by omega), if_neg (by omega)]
    exact linked.binding g any
  shared any := by
    have size := linked.size
    have inside : ¬ (1 = 0 ∧ 0 < t.frames.size ∧ any = name) := fun all => by omega
    rw [binding?_define, binding?_define, binding?_define, if_neg inside]
    by_cases here : any = name
    · subst here
      rw [if_pos ⟨rfl, linked.nonempty, rfl⟩, if_pos ⟨rfl, by omega, rfl⟩, free, Option.none_or]
      exact someMoved moved
    · rw [if_neg (fun all => here all.2.2), if_neg (fun all => here all.2.2)]
      exact linked.shared any
  queueName := by
    rw [binding?_define, if_neg (fun all => other all.2.2.symm)]
    exact linked.queueName
  queues := linked.queues
  queueCount := linked.queueCount
  closures := linked.closures
  limit := linked.limit
  depth := linked.depth

theorem child (linked : Linked s t) (f : Nat) {pairs others : List (String × Value)}
    (moved : Value.PairsMoved pairs others) : Linked (s.child f pairs) (t.child (f + 1) others) where
  nonempty := by rw [size_child]; omega
  size := by rw [size_child, size_child, linked.size]
  chain g := by
    rw [chain_child, chain_child, linked.size]
    by_cases new : g = s.frames.size
    · obtain ⟨n, positive⟩ : ∃ n, g = n + 1 := ⟨g - 1, by have := linked.nonempty; omega⟩
      rw [if_pos new, if_pos (by omega), linked.chain, List.flatMap_cons, positive]
      rfl
    · rw [if_neg new, if_neg (by omega)]
      exact linked.chain g
  binding g name := by
    rw [binding?_child, binding?_child, linked.size]
    by_cases new : g + 1 = s.frames.size
    · rw [if_pos new, if_pos (by omega)]
      exact Moved.map (fun r given => Keyed.find?_map (Value.recast r) name given) moved
    · rw [if_neg new, if_neg (by omega)]
      exact linked.binding g name
  shared name := by
    have positive := linked.nonempty
    rw [binding?_child, binding?_child, binding?_child, linked.size, if_neg (by omega), if_neg (by omega),
      if_neg (by omega)]
    exact linked.shared name
  queueName := by
    rw [binding?_child, linked.size, if_neg (by omega)]
    exact linked.queueName
  queues := linked.queues
  queueCount := linked.queueCount
  closures := linked.closures
  limit := linked.limit
  depth := linked.depth

/-- The frame that an assignment changes one frame further in: the one around the program only for a name that the
program's own frame does not bind. -/
def Stands (t : Store) (name : String) : Nat → Nat → Prop
  | 0, h => h = 1 ∨ h = 0 ∧ t.binding? 1 name = none
  | g + 1, h => h = g + 2

theorem isSome_binding (linked : Linked s t) (f : Nat) (name : String) :
    (t.binding? (f + 2) name).isSome = (s.binding? (f + 1) name).isSome := by
  rw [(linked.binding f name).inner, Option.isSome_map]

theorem isSome_shared (linked : Linked s t) (name : String) :
    ((t.binding? 1 name).isSome || (t.binding? 0 name).isSome) = (s.binding? 0 name).isSome := by
  rw [← Option.isSome_or, (linked.shared name).inner, Option.isSome_map]

/-- The nearest frames that bind a name stand for each other. -/
theorem find_binding (linked : Linked s t) (name : String) (frames : List Nat) :
    (∃ g h, frames.find? (fun f => (s.binding? f name).isSome) = some g ∧
      (frames.flatMap inward).find? (fun f => (t.binding? f name).isSome) = some h ∧ Stands t name g h) ∨
    (frames.find? (fun f => (s.binding? f name).isSome) = none ∧
      (frames.flatMap inward).find? (fun f => (t.binding? f name).isSome) = none) := by
  induction frames with
  | nil => exact .inr ⟨rfl, rfl⟩
  | cons f rest ih =>
      cases f with
      | zero =>
          have both := linked.isSome_shared name
          rw [List.flatMap_cons, inward, List.find?_append, List.find?_cons, ← both]
          cases own : t.binding? 1 name with
          | some value => exact .inl ⟨0, 1, by simp, by simp [own], .inl rfl⟩
          | none =>
              cases around : t.binding? 0 name with
              | some value => exact .inl ⟨0, 0, by simp, by simp [own, around], .inr ⟨rfl, own⟩⟩
              | none => simpa [own, around] using ih
      | succ f =>
          rw [List.flatMap_cons, inward, List.singleton_append, List.find?_cons, List.find?_cons, linked.isSome_binding]
          cases bound : (s.binding? (f + 1) name).isSome with
          | true => exact .inl ⟨f + 1, f + 2, rfl, rfl, rfl⟩
          | false => exact ih

/-- An assignment changes frames that stand for each other. -/
theorem target (linked : Linked s t) (f : Nat) (name : String) :
    Stands t name (s.target f name) (t.target (f + 1) name) := by
  rw [Store.target, Store.target, linked.chain]
  rcases linked.find_binding name (s.chain f) with ⟨g, h, found, found', stands⟩ | ⟨none, none'⟩
  · rw [found, found']
    exact stands
  · rw [none, none']
    obtain ⟨front, last, whole⟩ : ∃ front last, s.chain f = front ++ [last] :=
      ⟨_, _, (List.dropLast_concat_getLast (List.cons_ne_nil f _)).symm⟩
    have free : ∀ g ∈ (s.chain f).flatMap inward, t.binding? g name = Option.none := by
      intro g member
      simpa using List.find?_eq_none.mp none' g member
    rw [whole, List.flatMap_append] at free ⊢
    change Stands t name ((front ++ [last]).getLastD f)
      ((front.flatMap inward ++ [last].flatMap inward).getLastD (f + 1))
    rw [List.getLastD_concat, List.flatMap_singleton]
    cases last with
    | zero =>
        have final : (front.flatMap inward ++ inward 0).getLastD (f + 1) = 0 := by
          rw [inward, ← List.singleton_append, ← List.append_assoc, List.getLastD_concat]
        rw [final]
        exact Or.inr ⟨rfl, free 1 (by simp [inward])⟩
    | succ g =>
        rw [inward, List.getLastD_concat]
        exact rfl

theorem assign (linked : Linked s t) (f : Nat) {name : String} (other : name ≠ Harness.queueName) {v w : Value}
    (moved : v.Moved w) : Linked (s.assign f name v) (t.assign (f + 1) name w) := by
  have stands := linked.target f name
  rw [Store.assign, Store.assign]
  cases same : s.target f name with
  | zero =>
      rw [same] at stands
      rcases stands with own | ⟨around, free⟩
      · rw [own]
        exact linked.define 0 name moved
      · rw [around]
        exact linked.defineAround other free moved
  | succ g =>
      rw [same] at stands
      rw [show t.target (f + 1) name = g + 2 from stands]
      exact linked.define (g + 1) name moved

theorem addQueue (linked : Linked s t) : Linked s.addQueue t.addQueue :=
  { linked with
    queues := fun q => by rw [queue_addQueue, queue_addQueue]; exact linked.queues q
    queueCount := by simp [Store.addQueue, linked.queueCount] }

theorem enqueue (linked : Linked s t) (q : Nat) {v w : Value} (moved : v.Moved w) :
    Linked (s.enqueue q v) (t.enqueue q w) :=
  { linked with
    queues := fun p => by
      rw [queue_enqueue, queue_enqueue, linked.queueCount]
      split
      · have single : Value.AllMoved [v] [w] := Moved.map (f := fun v => [v]) (fun _ _ => rfl) moved
        exact Moved.map₂ (fun r items more => List.map_append.symm) (linked.queues p) single
      · exact linked.queues p
    queueCount := by simp [Store.enqueue, linked.queueCount] }

theorem drain (linked : Linked s t) (q : Nat) : Linked (s.drain q) (t.drain q) :=
  { linked with
    queues := fun p => by
      rw [queue_drain, queue_drain]
      split
      · exact ⟨rfl, rfl⟩
      · exact linked.queues p
    queueCount := by simp [Store.drain, linked.queueCount] }

theorem publish (linked : Linked s t) (name other : String) (v w : Value) :
    Linked (s.publish name v) (t.publish other w) :=
  { linked with }

theorem countClosure (linked : Linked s t) : Linked s.countClosure t.countClosure :=
  { linked with closures := by rw [Store.countClosure, Store.countClosure, linked.closures] }

theorem descend (linked : Linked s t) : Linked s.descend t.descend :=
  { linked with depth := by rw [Store.descend, Store.descend, linked.depth] }

theorem ascend (linked : Linked s t) : Linked s.ascend t.ascend :=
  { linked with depth := by rw [Store.ascend, Store.ascend, linked.depth] }

end Linked

end Store

end Exemplar
