import Exemplar.Proofs.Scopes
import Mathlib.Logic.Relation

/-!
# Lexical scopes

The frames of a store form a forest. A name seen from a frame is the one of the nearest frame on the way outward that
binds it, and an assignment changes the binding of that frame, or makes one where the way ends. What every frame of the
forest sees afterwards depends only on whether its own way leads to the frame that was changed.
-/

namespace Exemplar.Store

def parent? (s : Store) (f : Nat) : Option Nat := (s.frames[f]?).bind (·.outer.head?)

/-- Adds an empty frame with no frame around it. -/
def addRoot (s : Store) : Store := { s with frames := s.frames.push ⟨[], []⟩ }

/-- Looking for a name outward from frame `f` comes to frame `g`: no frame before `g` on the way binds it. -/
inductive Reaches (s : Store) (name : String) : (f g : Nat) → Prop where
  | here (f : Nat) : Reaches s name f f
  | outward {f p g : Nat} (free : s.binding? f name = none) (parent : s.parent? f = some p)
      (further : Reaches s name p g) : Reaches s name f g

/-- One operation on frames that are there. -/
inductive Operation : Store → Store → Prop where
  | addRoot (s : Store) : Operation s s.addRoot
  | child (s : Store) {f : Nat} (inside : f < s.frames.size) (bindings : List (String × Value)) :
      Operation s (s.child f bindings)
  | define (s : Store) {f : Nat} (inside : f < s.frames.size) (name : String) (value : Value) :
      Operation s (s.define f name value)
  | assign (s : Store) {f : Nat} (inside : f < s.frames.size) (name : String) (value : Value) :
      Operation s (s.assign f name value)
  /-- Looking a name up gives a value and changes nothing. -/
  | lookup (s : Store) {f : Nat} (inside : f < s.frames.size) (name : String) : Operation s s
  | clear (s : Store) {f : Nat} (inside : f < s.frames.size) : Operation s (s.clear f)

/-! ## Forests -/

/-- Every frame is an outermost one, or the frames around it are an earlier frame and those around that one. -/
def Forest (s : Store) : Prop :=
  ∀ (f : Nat) (frame : Frame), s.frames[f]? = some frame → frame.outer = [] ∨ ∃ p < f, frame.outer = s.chain p

theorem parent?_eq (s : Store) (f : Nat) : s.parent? f = (s.chain f).tail.head? := by
  rw [parent?, chain, List.tail_cons]
  cases s.frames[f]? <;> rfl

theorem parent?_of_chain {s t : Store} {f : Nat} (same : t.chain f = s.chain f) : t.parent? f = s.parent? f := by
  rw [parent?_eq, parent?_eq, same]

@[simp] theorem chain_clear (s : Store) (f g : Nat) : (s.clear f).chain g = s.chain g := by
  simp only [chain, clear, Array.getElem?_modify]
  split
  · cases s.frames[g]? <;> rfl
  · rfl

theorem binding?_clear (s : Store) (f g : Nat) (name : String) :
    (s.clear f).binding? g name = if g = f then none else s.binding? g name := by
  simp only [binding?, clear, Array.getElem?_modify]
  by_cases same : f = g
  · rw [if_pos same, if_pos same.symm]
    cases s.frames[g]? <;> rfl
  · rw [if_neg same, if_neg (Ne.symm same)]

theorem chain_addRoot (s : Store) {f : Nat} (inside : f < s.frames.size) : s.addRoot.chain f = s.chain f := by
  rw [chain, chain, addRoot, Array.getElem?_push, if_neg (Nat.ne_of_lt inside)]

namespace Forest

variable {s : Store}

/-- The frames around a frame are those on the way outward. -/
theorem chain_eq (forest : s.Forest) (f : Nat) : s.chain f = f :: ((s.parent? f).map s.chain).getD [] := by
  cases found : s.frames[f]? with
  | none => simp [chain, parent?, found]
  | some frame =>
      rcases forest f frame found with outermost | ⟨p, _, outer⟩
      · simp [chain, parent?, found, outermost]
      · have around : s.parent? f = some p := by simp [parent?, found, outer, chain]
        rw [around, chain, found]
        exact congrArg (f :: ·) outer

theorem parent_lt (forest : s.Forest) {f p : Nat} (parent : s.parent? f = some p) : p < f := by
  obtain ⟨frame, found, head⟩ := Option.bind_eq_some_iff.mp parent
  rcases forest f frame found with outermost | ⟨q, before, outer⟩
  · rw [outermost] at head
    cases head
  · rw [outer] at head
    cases head
    exact before

theorem empty (limit : Nat) : (Store.empty limit).Forest := by
  intro f frame found
  cases f with
  | zero => cases found; exact .inl rfl
  | succ f => cases found

/-- A change that leaves the frames around each frame leaves a forest. -/
theorem of_chain {t : Store} (forest : s.Forest) (size : t.frames.size = s.frames.size)
    (same : ∀ f, t.chain f = s.chain f) : t.Forest := by
  intro f frame found
  have inside : f < s.frames.size := size ▸ (Array.getElem?_eq_some_iff.mp found).1
  have chain := same f
  rw [Store.chain, Store.chain, found, Array.getElem?_eq_getElem inside] at chain
  have outer : frame.outer = s.frames[f].outer := List.tail_eq_of_cons_eq chain
  rw [outer]
  rcases forest f s.frames[f] (Array.getElem?_eq_getElem inside) with outermost | ⟨p, before, around⟩
  · exact .inl outermost
  · exact .inr ⟨p, before, by rw [same, around]⟩

/-- A new frame that is outermost or inside one that is there leaves a forest. -/
theorem push {t : Store} (forest : s.Forest) {new : Frame} (frames : t.frames = s.frames.push new)
    (around : new.outer = [] ∨ ∃ p < s.frames.size, new.outer = s.chain p) : t.Forest := by
  have chain {p : Nat} (inside : p < s.frames.size) : t.chain p = s.chain p := by
    rw [Store.chain, Store.chain, frames, Array.getElem?_push, if_neg (Nat.ne_of_lt inside)]
  intro f frame found
  rw [frames, Array.getElem?_push] at found
  split at found
  · next last =>
      cases found
      rcases around with outermost | ⟨p, inside, outer⟩
      · exact .inl outermost
      · exact .inr ⟨p, last ▸ inside, by rw [chain inside, outer]⟩
  · have inside : f < s.frames.size := (Array.getElem?_eq_some_iff.mp found).1
    rcases forest f frame found with outermost | ⟨p, before, outer⟩
    · exact .inl outermost
    · exact .inr ⟨p, before, by rw [chain (Nat.lt_trans before inside), outer]⟩

theorem step {t : Store} (forest : s.Forest) (operation : Operation s t) : t.Forest := by
  cases operation with
  | addRoot => exact forest.push rfl (.inl rfl)
  | child inside bindings => exact forest.push rfl (.inr ⟨_, inside, rfl⟩)
  | define inside name value | assign inside name value =>
      exact forest.of_chain (size_define s _ name value) fun g => chain_define s _ g name value
  | lookup inside name => exact forest
  | clear inside => exact forest.of_chain (by simp [clear]) (chain_clear s _)

theorem run {t : Store} (forest : s.Forest) (operations : Relation.ReflTransGen Operation s t) : t.Forest := by
  induction operations with
  | refl => exact forest
  | tail _ operation ih => exact ih.step operation

end Forest

/-! ## Parents never change -/

theorem Operation.size_le {s t : Store} (operation : Operation s t) : s.frames.size ≤ t.frames.size := by
  cases operation <;> simp [Store.addRoot, Store.child, Store.define, Store.assign, Store.clear]

theorem Operation.parent {s t : Store} (operation : Operation s t) {f : Nat} (inside : f < s.frames.size) :
    t.parent? f = s.parent? f := by
  apply parent?_of_chain
  cases operation with
  | addRoot => exact chain_addRoot s inside
  | child _ bindings => rw [chain_child, if_neg (Nat.ne_of_lt inside)]
  | define _ name value => exact chain_define s _ f name value
  | assign _ name value => exact chain_define s _ f name value
  | lookup _ name => rfl
  | clear _ => exact chain_clear s _ f

theorem parents_kept {s t : Store} (operations : Relation.ReflTransGen Operation s t) :
    s.frames.size ≤ t.frames.size ∧ ∀ f < s.frames.size, t.parent? f = s.parent? f := by
  induction operations with
  | refl => exact ⟨Nat.le_refl _, fun _ _ => rfl⟩
  | tail _ operation ih =>
      refine ⟨Nat.le_trans ih.1 operation.size_le, fun f inside => ?_⟩
      rw [operation.parent (Nat.lt_of_lt_of_le inside ih.1), ih.2 f inside]

/-! ## Looking up and assigning -/

namespace Forest

variable {s : Store} (forest : s.Forest) (name : String)

include forest

theorem lookup?_eq (f : Nat) :
    s.lookup? f name = (s.binding? f name).or ((s.parent? f).bind (s.lookup? · name)) := by
  rw [lookup?, forest.chain_eq f, ← List.singleton_append, List.findSome?_append, List.findSome?_singleton]
  cases s.parent? f <;> rfl

theorem lookup?_eq_some_iff (f : Nat) (value : Value) :
    s.lookup? f name = some value ↔ ∃ g, s.Reaches name f g ∧ s.binding? g name = some value := by
  constructor
  · intro found
    induction f using Nat.strongRecOn with
    | ind f ih =>
        rw [forest.lookup?_eq, Option.or_eq_some_iff] at found
        rcases found with bound | ⟨free, further⟩
        · exact ⟨f, .here f, bound⟩
        · obtain ⟨p, parent, found⟩ := Option.bind_eq_some_iff.mp further
          obtain ⟨g, reaches, bound⟩ := ih p (forest.parent_lt parent) found
          exact ⟨g, .outward free parent reaches, bound⟩
  · rintro ⟨g, reaches, bound⟩
    induction reaches with
    | here => rw [forest.lookup?_eq, bound, Option.some_or]
    | outward free parent _ ih => rw [forest.lookup?_eq, free, Option.none_or, parent, Option.bind_some, ih bound]

theorem target_eq (f : Nat) :
    s.target f name = if (s.binding? f name).isSome then f else ((s.parent? f).map (s.target · name)).getD f := by
  unfold target
  rw [forest.chain_eq f]
  dsimp only
  rw [List.find?_cons]
  cases (s.binding? f name).isSome with
  | true => rfl
  | false =>
      cases parent : s.parent? f with
      | none => rfl
      | some p =>
          -- The way goes on from `p`, whose chain has a last frame, so the default does not matter.
          have last : (f :: s.chain p).getLastD f = (s.chain p).getLastD p := rfl
          simp only [Option.map_some, Option.getD_some, last, Bool.false_eq_true, if_false]

/-- An assignment goes to the nearest frame that binds the name, or else to the outermost one. -/
theorem target_spec (f : Nat) :
    s.Reaches name f (s.target f name) ∧
      ((s.binding? (s.target f name) name).isSome = true ∨ s.parent? (s.target f name) = none) := by
  induction f using Nat.strongRecOn with
  | ind f ih =>
      rw [forest.target_eq name f]
      split
      · next bound => exact ⟨.here f, .inl bound⟩
      · next free =>
          cases parent : s.parent? f with
          | none => exact ⟨.here f, .inr parent⟩
          | some p =>
              obtain ⟨reaches, ends⟩ := ih p (forest.parent_lt parent)
              exact ⟨.outward (by simpa using free) parent reaches, ends⟩

theorem le_of_reaches {f g : Nat} (reaches : s.Reaches name f g) : g ≤ f := by
  induction reaches with
  | here => exact Nat.le_refl _
  | outward _ parent _ ih => exact Nat.le_of_lt (Nat.lt_of_le_of_lt ih (forest.parent_lt parent))

theorem binding?_assign {f : Nat} (inside : f < s.frames.size) (value : Value) (g : Nat) (other : String) :
    (s.assign f name value).binding? g other =
      if g = s.target f name ∧ other = name then some value else s.binding? g other := by
  have exists' : s.target f name < s.frames.size :=
    Nat.lt_of_le_of_lt (forest.le_of_reaches name (forest.target_spec name f).1) inside
  rw [assign, binding?_define]
  simp [exists']

theorem assign_forest (f : Nat) (value : Value) : (s.assign f name value).Forest :=
  forest.of_chain (size_define s _ name value) fun g => chain_define s _ g name value

/-- Where the way leads to the frame that was assigned in, the new value is seen. -/
theorem lookup?_assign_of_reaches {f : Nat} (inside : f < s.frames.size) (value : Value) {h : Nat}
    (reaches : s.Reaches name h (s.target f name)) : (s.assign f name value).lookup? h name = some value := by
  have bound := forest.binding?_assign name inside value
  generalize s.target f name = g at reaches bound
  induction reaches with
  | here h => rw [(forest.assign_forest name f value).lookup?_eq, bound, if_pos ⟨rfl, rfl⟩, Option.some_or]
  | @outward h p g free parent _ ih =>
      have around : (s.assign f name value).parent? h = some p :=
        (parent?_of_chain (chain_define s _ h name value)).trans parent
      rw [(forest.assign_forest name f value).lookup?_eq, bound, around, Option.bind_some, ih bound]
      split
      · rfl
      · rw [free, Option.none_or]

/-- Everywhere else, and for other names, all is as it was. -/
theorem lookup?_assign_of_not_reaches {f : Nat} (inside : f < s.frames.size) (value : Value) {h : Nat} {other : String}
    (elsewhere : ¬ (other = name ∧ s.Reaches name h (s.target f name))) :
    (s.assign f name value).lookup? h other = s.lookup? h other := by
  have bound := forest.binding?_assign name inside value
  induction h using Nat.strongRecOn with
  | ind h ih =>
      have around : (s.assign f name value).parent? h = s.parent? h :=
        parent?_of_chain (chain_define s _ h name value)
      have unchanged : ¬ (h = s.target f name ∧ other = name) := by
        rintro ⟨rfl, same⟩
        exact elsewhere ⟨same, .here _⟩
      rw [(forest.assign_forest name f value).lookup?_eq, forest.lookup?_eq, bound, if_neg unchanged, around]
      cases free : s.binding? h other with
      | some old => rfl
      | none =>
          cases parent : s.parent? h with
          | none => rfl
          | some p =>
              refine ih p (forest.parent_lt parent) ?_
              rintro ⟨rfl, reaches⟩
              exact elsewhere ⟨rfl, .outward free parent reaches⟩

end Forest

theorem parent?_child (s : Store) (f : Nat) (bindings : List (String × Value)) :
    (s.child f bindings).parent? s.frames.size = some f := by
  rw [parent?_eq, chain_child, if_pos rfl]
  rfl

/-- In every store that operations on frames lead to: a lookup gives the binding of the nearest frame that has one; a
new frame stands inside its parent with its own bindings; a definition changes one binding of its frame; an assignment
changes one binding, in the nearest frame that binds the name or else in the outermost one, and exactly the frames whose
lookup of the name comes to that frame see the new value; clearing takes the bindings of one frame. No operation changes
the parent of a frame, and a parent is older than its frame. -/
theorem scopes_lexical {limit : Nat} {s : Store} (reached : Relation.ReflTransGen Operation (empty limit) s) :
    (∀ f name value, s.lookup? f name = some value ↔ ∃ g, s.Reaches name f g ∧ s.binding? g name = some value) ∧
    (∀ f bindings, (s.child f bindings).parent? s.frames.size = some f ∧
      ∀ g name, (s.child f bindings).binding? g name =
        if g = s.frames.size then Keyed.find? name bindings else s.binding? g name) ∧
    (∀ f < s.frames.size, ∀ name value g other, (s.define f name value).binding? g other =
      if g = f ∧ other = name then some value else s.binding? g other) ∧
    (∀ f < s.frames.size, ∀ name value, ∃ g, s.Reaches name f g ∧
      ((s.binding? g name).isSome = true ∨ s.parent? g = none) ∧
      (∀ h other, (s.assign f name value).binding? h other =
        if h = g ∧ other = name then some value else s.binding? h other) ∧
      (s.assign f name value).lookup? f name = some value ∧
      ∀ h other,
        (other = name ∧ s.Reaches name h g → (s.assign f name value).lookup? h other = some value) ∧
        (¬ (other = name ∧ s.Reaches name h g) →
          (s.assign f name value).lookup? h other = s.lookup? h other)) ∧
    (∀ f g name, (s.clear f).binding? g name = if g = f then none else s.binding? g name) ∧
    (∀ f p, s.parent? f = some p → p < f) ∧
    ∀ t, Relation.ReflTransGen Operation s t → ∀ f < s.frames.size, t.parent? f = s.parent? f := by
  have forest := (Forest.empty limit).run reached
  refine ⟨fun f name => forest.lookup?_eq_some_iff name f, fun f bindings => ?_, fun f inside name value g other => ?_,
    fun f inside name value => ?_, binding?_clear s, fun f p => forest.parent_lt, fun t later => (parents_kept later).2⟩
  · exact ⟨parent?_child s f bindings, fun g name => binding?_child s f g bindings name⟩
  · rw [binding?_define]
    simp [inside]
  · obtain ⟨reaches, ends⟩ := forest.target_spec name f
    refine ⟨s.target f name, reaches, ends, forest.binding?_assign name inside value,
      forest.lookup?_assign_of_reaches name inside value reaches, fun h other => ⟨?_, ?_⟩⟩
    · rintro ⟨rfl, leads⟩
      exact forest.lookup?_assign_of_reaches other inside value leads
    · exact forest.lookup?_assign_of_not_reaches name inside value

/-- An outermost frame, one inside it, one further in that hides the name, and another outermost frame: an assignment
from the second frame changes what the first two see and nothing else. -/
theorem scopes_lexical_hidden :
    ∃ s t : Store, Relation.ReflTransGen Operation (empty 1) s ∧ s.frames.size = 4 ∧
      t = s.assign 1 "x" (.bool true) ∧
      s.lookup? 1 "x" = some .nil ∧ s.lookup? 2 "x" = some (.bool false) ∧ s.lookup? 3 "x" = none ∧
      t.lookup? 0 "x" = some (.bool true) ∧ t.lookup? 1 "x" = some (.bool true) ∧
      t.lookup? 2 "x" = s.lookup? 2 "x" ∧ t.lookup? 3 "x" = s.lookup? 3 "x" ∧ t.parent? 2 = some 1 := by
  let s := (((empty 1).define 0 "x" .nil).child 0 []).child 1 [("x", .bool false)]
  have reached : Relation.ReflTransGen Operation (empty 1) s.addRoot :=
    (((Relation.ReflTransGen.single (.define _ (by decide) "x" .nil)).tail (.child _ (by decide) [])).tail
      (.child _ (by decide) [("x", .bool false)])).tail (.addRoot s)
  obtain ⟨_, _, _, assigns, _, _, parents⟩ := scopes_lexical reached
  have inside : 1 < s.addRoot.frames.size := by decide
  obtain ⟨g, reaches, ends, _, own, each⟩ := assigns 1 inside "x" (.bool true)
  -- From frame 1 the way leads to frame 0, the only one outside that binds the name.
  obtain rfl : g = 0 := by
    cases reaches with
    | here => rcases ends with bound | none <;> contradiction
    | outward _ parent further =>
        cases parent
        cases further with
        | here => rfl
        | outward _ none => cases none
  have hidden : ¬ Reaches s.addRoot "x" 2 0 := by
    rintro (_ | ⟨free, _, _⟩)
    cases free
  have apart : ¬ Reaches s.addRoot "x" 3 0 := by
    rintro (_ | ⟨_, none, _⟩)
    cases none
  have operated := parents _ (.single (.assign _ inside "x" (.bool true))) 2 (by decide)
  exact ⟨s.addRoot, _, reached, rfl, rfl, rfl, rfl, rfl, (each 0 "x").1 ⟨rfl, .here 0⟩, own,
    (each 2 "x").2 fun both => hidden both.2, (each 3 "x").2 fun both => apart both.2, operated⟩

end Exemplar.Store
