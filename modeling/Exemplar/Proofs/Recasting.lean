import Exemplar.Native.Compute

/-!
# Values with other functions in them

A recasting changes the functions inside values and keeps what programs can see of them. Everything that programs
compute from values without calling functions goes along with it.
-/

namespace Exemplar

namespace Keyed

variable {κ ν μ : Type} [Ord κ] (f : ν → μ)

theorem insert_map (key : κ) (value : ν) (pairs : List (κ × ν)) :
    insert key (f value) (pairs.map fun pair => (pair.1, f pair.2)) =
      (insert key value pairs).map fun pair => (pair.1, f pair.2) := by
  induction pairs with
  | nil => rfl
  | cons pair rest ih =>
      obtain ⟨other, old⟩ := pair
      simp only [List.map_cons, insert]
      cases compare key other <;> simp [ih]

theorem find?_map (key : κ) (pairs : List (κ × ν)) :
    find? key (pairs.map fun pair => (pair.1, f pair.2)) = (find? key pairs).map f := by
  induction pairs with
  | nil => rfl
  | cons pair rest ih =>
      obtain ⟨other, old⟩ := pair
      simp only [List.map_cons, find?]
      cases compare key other <;> simp [ih]

theorem insertAll_map (pairs into : List (κ × ν)) :
    insertAll (pairs.map fun pair => (pair.1, f pair.2)) (into.map fun pair => (pair.1, f pair.2)) =
      (insertAll pairs into).map fun pair => (pair.1, f pair.2) := by
  induction pairs generalizing into with
  | nil => rfl
  | cons pair rest ih =>
      have later := ih (insert pair.1 pair.2 into)
      rw [← insert_map] at later
      exact later

end Keyed

/-- A change of functions that keeps what tells them apart and how they are shown. -/
structure Recast where
  closure : Closure → Closure
  id_eq : ∀ c, (closure c).id = c.id
  name_eq : ∀ c, (closure c).name = c.name

namespace Value

mutual

/-- The value with all functions of the program in it recast. -/
def recast (r : Recast) : Value → Value
  | list items => list (recastItems r items)
  | map entries => map (recastEntries r entries)
  | closure c => closure (r.closure c)
  | nil => nil
  | bool b => bool b
  | number x => number x
  | string text => string text
  | keyword name => keyword name
  | symbol name => symbol name
  | native f => native f
  | error name message => error name message
  | queue id => queue id

def recastItems (r : Recast) : List Value → List Value
  | [] => []
  | item :: rest => recast r item :: recastItems r rest

def recastEntries (r : Recast) : List (Key × Value) → List (Key × Value)
  | [] => []
  | (key, value) :: rest => (key, recast r value) :: recastEntries r rest

end

variable (r : Recast)

@[simp] theorem recastItems_eq (items : List Value) : recastItems r items = items.map (recast r) := by
  induction items with
  | nil => rfl
  | cons item rest ih => rw [recastItems, ih, List.map_cons]

@[simp] theorem recastEntries_eq (entries : List (Key × Value)) :
    recastEntries r entries = entries.map fun entry => (entry.1, entry.2.recast r) := by
  induction entries with
  | nil => rfl
  | cons entry rest ih => rw [recastEntries, ih, List.map_cons]

@[simp] theorem type_recast (v : Value) : (v.recast r).type = v.type := by
  cases v <;> rfl

@[simp] theorem isTruthy_recast (v : Value) : (v.recast r).isTruthy = v.isTruthy := by
  cases v with
  | bool b => cases b <;> rfl
  | _ => rfl

@[simp] theorem isCallable_recast (v : Value) : (v.recast r).isCallable = v.isCallable := by
  cases v <;> rfl

@[simp] theorem key?_recast (v : Value) : (v.recast r).key? = v.key? := by
  cases v <;> rfl

mutual

@[simp] theorem render_recast : (v : Value) → (v.recast r).render = v.render
  | list items => by rw [recast, render, render, renderItems_recast items]
  | map entries => by rw [recast, render, render, renderEntries_recast entries]
  | closure c => by simp only [recast, render, r.name_eq]
  | nil | bool _ | number _ | string _ | keyword _ | symbol _ | native _ | error _ _ | queue _ => rfl

theorem renderItems_recast : (items : List Value) → renderItems (recastItems r items) = renderItems items
  | [] => rfl
  | [item] => by rw [recastItems, recastItems, renderItems, renderItems, render_recast item]
  | item :: next :: rest => by
      have later := renderItems_recast (next :: rest)
      change (item.recast r).render ++ (" " ++ renderItems (recastItems r (next :: rest))) = _
      rw [render_recast item, later]
      rfl

theorem renderEntries_recast :
    (entries : List (Key × Value)) → renderEntries (recastEntries r entries) = renderEntries entries
  | [] => rfl
  | [(key, value)] => by rw [recastEntries, recastEntries, renderEntries, renderEntries, render_recast value]
  | (key, value) :: (other, next) :: rest => by
      have later := renderEntries_recast ((other, next) :: rest)
      change key.render ++ (" " ++ ((value.recast r).render ++
        (" " ++ renderEntries (recastEntries r ((other, next) :: rest))))) = _
      rw [render_recast value, later]
      rfl

end

mutual

@[simp] theorem same_recast : (v w : Value) → (v.recast r).same (w.recast r) = v.same w
  | list xs, w => by
      cases w with
      | list ys => exact sameItems_recast xs ys
      | _ => rfl
  | map xs, w => by
      cases w with
      | map ys => exact sameEntries_recast xs ys
      | _ => rfl
  | closure f, w => by
      cases w with
      | closure g => simp only [recast, same, r.id_eq]
      | _ => rfl
  | nil, w | bool _, w | number _, w | string _, w | keyword _, w | symbol _, w | native _, w | error _ _, w
  | queue _, w => by cases w <;> rfl

theorem sameItems_recast :
    (xs ys : List Value) → sameItems (recastItems r xs) (recastItems r ys) = sameItems xs ys
  | [], [] => rfl
  | x :: xs, y :: ys => by
      rw [recastItems, recastItems, sameItems, sameItems, same_recast x y, sameItems_recast xs ys]
  | [], _ :: _ | _ :: _, [] => rfl

theorem sameEntries_recast :
    (xs ys : List (Key × Value)) → sameEntries (recastEntries r xs) (recastEntries r ys) = sameEntries xs ys
  | [], [] => rfl
  | (k, x) :: xs, (l, y) :: ys => by
      rw [recastEntries, recastEntries, sameEntries, sameEntries, same_recast x y, sameEntries_recast xs ys]
  | [], _ :: _ | _ :: _, [] => rfl

end

theorem renderRaised_recast (withMessage : Bool) (v : Value) :
    (v.recast r).renderRaised withMessage = v.renderRaised withMessage := by
  cases v with
  | error name message => rfl
  | _ => exact congrArg (fun text => s!"! {text}") (render_recast r _)

mutual

/-- Data holds no functions. -/
@[simp] theorem quoted_recast : (form : Form) → form.quoted.recast r = form.quoted
  | .atom a => by cases a <;> rfl
  | .quote inner => by simp [Form.quoted, recast, quoted_recast inner]
  | .group .curly items => by
      have entries := quotedEntries_recast [] rfl items
      simp [Form.quoted, recast, entries]
  | .group .round items | .group .square items => by
      have items := quotedItems_recast items
      simp [Form.quoted, recast, items]

theorem quotedItems_recast : (items : List Form) → (Form.quotedItems items).map (recast r) = Form.quotedItems items
  | [] => rfl
  | item :: rest => by rw [Form.quotedItems, List.map_cons, quoted_recast item, quotedItems_recast rest]

theorem quotedEntries_recast (entries : List (Key × Value))
    (kept : entries.map (fun entry => (entry.1, entry.2.recast r)) = entries) :
    (items : List Form) → (Form.quotedEntries entries items).map (fun entry => (entry.1, entry.2.recast r)) =
      Form.quotedEntries entries items
  | [] | [_] => kept
  | key :: value :: rest => by
      refine quotedEntries_recast _ ?_ rest
      rw [← Keyed.insert_map, kept, quoted_recast value]

end

end Value

theorem exists_of_bind {ε α β : Type} {x : Except ε α} {next : α → Except ε β} {b : β} (done : (x >>= next) = .ok b) :
    ∃ a, x = .ok a ∧ next a = .ok b := by
  cases x with
  | error fault => cases done
  | ok a => exact ⟨a, rfl, done⟩

/-- An outcome with its result changed by `f` and a raised value recast. -/
def Recast.carry {α β : Type} (r : Recast) (f : α → β) : Except Value α → Except Value β
  | .ok a => .ok (f a)
  | .error raised => .error (raised.recast r)

section

variable (r : Recast)

namespace Recast

variable {α β γ δ : Type}

@[simp] theorem carry_ok (f : α → β) (a : α) : r.carry f (.ok a) = .ok (f a) := rfl

@[simp] theorem carry_error (f : α → β) (raised : Value) :
    r.carry f (.error raised) = .error (raised.recast r) := rfl

@[simp] theorem carry_pure (f : α → β) (a : α) : r.carry f (pure a) = pure (f a) := rfl

theorem carry_bind {f : α → β} {g : γ → δ} {x : Except Value α} {next : α → Except Value γ} {next' : β → Except Value δ}
    (follows : ∀ a, next' (f a) = r.carry g (next a)) : (r.carry f x >>= next') = r.carry g (x >>= next) := by
  cases x with
  | error raised => rfl
  | ok a => exact follows a

theorem carry_mapM {f : Value → Except Value α} {g : α → β} {f' : Value → Except Value β}
    (follows : ∀ v, f' (v.recast r) = r.carry g (f v)) (args : List Value) :
    (args.map (Value.recast r)).mapM f' = r.carry (List.map g) (args.mapM f) := by
  induction args with
  | nil => rfl
  | cons v rest ih =>
      rw [List.map_cons, List.mapM_cons, List.mapM_cons, follows, ih]
      exact r.carry_bind fun a => r.carry_bind fun as => rfl

end Recast

namespace Native

variable (f : Native)

@[simp] theorem mismatch_recast (expected : String) (v : Value) :
    f.mismatch expected (v.recast r) = f.mismatch expected v := by
  simp [mismatch]

theorem wrongCount_recast {α β : Type} (g : α → β) (expected : String) {args args' : List Value}
    (same : args'.length = args.length) : f.wrongCount expected args' = r.carry g (f.wrongCount expected args) := by
  rw [wrongCount, wrongCount, same]
  rfl

@[simp] theorem number_recast (v : Value) : f.number (v.recast r) = r.carry id (f.number v) := by
  cases v with
  | number x => rfl
  | _ => exact congrArg Except.error (f.mismatch_recast r _ _)

@[simp] theorem index_recast (v : Value) : f.index (v.recast r) = r.carry id (f.index v) := by
  cases v with
  | number x =>
      simp only [index, Value.recast]
      split <;> rfl
  | _ => exact congrArg Except.error (f.mismatch_recast r _ _)

@[simp] theorem string_recast (v : Value) : f.string (v.recast r) = r.carry id (f.string v) := by
  cases v with
  | string text => rfl
  | _ => exact congrArg Except.error (f.mismatch_recast r _ _)

@[simp] theorem items_recast (v : Value) : f.items (v.recast r) = r.carry (List.map (Value.recast r)) (f.items v) := by
  cases v with
  | list given => simp [items, Value.recast]
  | nil => rfl
  | _ => exact congrArg Except.error (f.mismatch_recast r _ _)

@[simp] theorem entries_recast (v : Value) :
    f.entries (v.recast r) = r.carry (List.map fun entry => (entry.1, entry.2.recast r)) (f.entries v) := by
  cases v with
  | map given => simp [entries, Value.recast]
  | nil => rfl
  | _ => exact congrArg Except.error (f.mismatch_recast r _ _)

@[simp] theorem key_recast (v : Value) : f.key (v.recast r) = r.carry id (f.key v) := by
  simp only [key, Value.key?_recast, mismatch_recast]
  split <;> rfl

@[simp] theorem callable_recast (v : Value) : f.callable (v.recast r) = r.carry (Value.recast r) (f.callable v) := by
  simp only [callable, Value.isCallable_recast, mismatch_recast]
  split <;> rfl

@[simp] theorem problem_recast (v : Value) : f.problem (v.recast r) = r.carry id (f.problem v) := by
  cases v with
  | error name message => rfl
  | _ => exact congrArg Except.error (f.mismatch_recast r _ _)

@[simp] theorem queueId_recast (v : Value) : f.queueId (v.recast r) = r.carry id (f.queueId v) := by
  cases v with
  | queue id => rfl
  | _ => exact congrArg Except.error (f.mismatch_recast r _ _)

theorem numbers_recast (args : List Value) :
    f.numbers (args.map (Value.recast r)) = r.carry id (f.numbers args) := by
  rw [numbers, r.carry_mapM (f.number_recast r), List.map_id_fun]
  rfl

end Native

end

/-- A computation that goes along with every recasting of its arguments. -/
def Natural (compute : List Value → Except Value Value) : Prop :=
  ∀ (r : Recast) (args : List Value), compute (args.map (Value.recast r)) = r.carry (Value.recast r) (compute args)

namespace Natural

variable {compute : List Value → Except Value Value} {f : Native}

theorem unary (one : ∀ r a, compute [Value.recast r a] = r.carry (Value.recast r) (compute [a]))
    (none : compute [] = f.wrongCount "1" [])
    (many : ∀ a b more, compute (a :: b :: more) = f.wrongCount "1" (a :: b :: more)) : Natural compute := by
  intro r args
  match args with
  | [] =>
      rw [List.map_nil, none]
      exact f.wrongCount_recast r _ _ rfl
  | [a] => exact one r a
  | a :: b :: more =>
      rw [List.map_cons, List.map_cons, many, many]
      exact f.wrongCount_recast r _ _ (by simp)

theorem binary
    (two : ∀ r a b, compute [Value.recast r a, Value.recast r b] = r.carry (Value.recast r) (compute [a, b]))
    (none : compute [] = f.wrongCount "2" []) (one : ∀ a, compute [a] = f.wrongCount "2" [a])
    (many : ∀ a b c more, compute (a :: b :: c :: more) = f.wrongCount "2" (a :: b :: c :: more)) :
    Natural compute := by
  intro r args
  match args with
  | [] =>
      rw [List.map_nil, none]
      exact f.wrongCount_recast r _ _ rfl
  | [a] =>
      rw [List.map_cons, List.map_nil, one, one]
      exact f.wrongCount_recast r _ _ rfl
  | [a, b] => exact two r a b
  | a :: b :: c :: more =>
      rw [List.map_cons, List.map_cons, List.map_cons, many, many]
      exact f.wrongCount_recast r _ _ (by simp)

end Natural

namespace Compute

theorem add_natural : Natural add := by
  intro r args
  rw [add, Native.numbers_recast]
  exact r.carry_bind fun xs => rfl

theorem mul_natural : Natural mul := by
  intro r args
  rw [mul, Native.numbers_recast]
  exact r.carry_bind fun xs => rfl

theorem sub_natural : Natural sub := by
  intro r args
  match args with
  | [] => rfl
  | [a] =>
      simp only [List.map_cons, List.map_nil, sub, Native.number_recast]
      exact r.carry_bind fun x => rfl
  | a :: b :: more =>
      simp only [List.map_cons, sub, Native.number_recast]
      rw [← List.map_cons, Native.numbers_recast]
      exact r.carry_bind fun x => r.carry_bind fun xs => rfl

theorem divide_recast (r : Recast) (x : Float) (divisors : List Float) :
    r.carry id (divisors.foldlM divide x) = divisors.foldlM divide x := by
  induction divisors generalizing x with
  | nil => rfl
  | cons y rest ih =>
      rw [List.foldlM_cons, divide]
      split
      · rfl
      · exact ih (x / y)

theorem div_natural : Natural div := by
  intro r args
  match args with
  | [] | [_] =>
      simp only [List.map_nil, List.map_cons, div]
      exact Native.wrongCount_recast r _ _ _ (by simp)
  | a :: b :: more =>
      simp only [List.map_cons, div, Native.number_recast]
      rw [← List.map_cons, Native.numbers_recast]
      refine r.carry_bind fun x => r.carry_bind fun xs => ?_
      refine Eq.trans (congrArg (· >>= fun quotient => pure (Value.number quotient)) (divide_recast r x xs).symm) ?_
      exact r.carry_bind fun quotient => rfl

theorem mod_natural : Natural mod := by
  refine .binary (fun r a b => ?_) rfl (fun _ => rfl) fun _ _ _ _ => rfl
  simp only [mod, Native.number_recast]
  refine r.carry_bind fun x => r.carry_bind fun y => ?_
  dsimp only [id]
  split <;> rfl

theorem abs_natural : Natural abs := by
  refine .unary (fun r a => ?_) rfl fun _ _ _ => rfl
  simp only [abs, Native.number_recast]
  exact r.carry_bind fun x => rfl

theorem extreme_natural (f : Native) (pick : Float → Float → Float) : Natural (extreme f pick) := by
  intro r args
  cases args with
  | nil => rfl
  | cons a more =>
      simp only [List.map_cons, extreme, Native.number_recast, Native.numbers_recast]
      exact r.carry_bind fun x => r.carry_bind fun xs => rfl

theorem allSame_recast (r : Recast) (args : List Value) : allSame (args.map (Value.recast r)) = allSame args := by
  induction args with
  | nil => rfl
  | cons a rest ih =>
      cases rest with
      | nil => rfl
      | cons b more =>
          simp only [List.map_cons, allSame, Value.same_recast] at ih ⊢
          rw [ih]

theorem equal_natural (f : Native) (expected : Bool) : Natural (equal f expected) := by
  intro r args
  rw [equal, equal, allSame_recast, List.isEmpty_map]
  split
  · exact f.wrongCount_recast r _ _ (by simp)
  · rfl

theorem relation_recast (r : Recast) (f : Native) (a b : Value) :
    relation f (a.recast r) (b.recast r) = r.carry id (relation f a b) := by
  cases a with
  | number x =>
      cases b with
      | number y =>
          simp only [relation, Value.recast]
          split
          · rfl
          · split
            · rfl
            · split <;> rfl
      | _ => exact congrArg Except.error (f.mismatch_recast r _ _)
  | string text =>
      cases b with
      | string other => rfl
      | _ => exact congrArg Except.error (f.mismatch_recast r _ _)
  | _ => exact congrArg Except.error (f.mismatch_recast r _ _)

theorem ordered_recast (r : Recast) (f : Native) (accept : Ordering → Bool) (args : List Value) :
    ordered f accept (args.map (Value.recast r)) = r.carry id (ordered f accept args) := by
  induction args with
  | nil => rfl
  | cons a rest ih =>
      cases rest with
      | nil => rfl
      | cons b more =>
          simp only [List.map_cons, ordered, relation_recast] at ih ⊢
          refine r.carry_bind fun found => ?_
          cases found with
          | none => rfl
          | some ordering =>
              dsimp only [id]
              split
              · exact ih
              · rfl

theorem order_natural (f : Native) (accept : Ordering → Bool) : Natural (order f accept) := by
  intro r args
  rw [order, order, List.length_map, ordered_recast]
  split
  · exact f.wrongCount_recast r _ _ (by simp)
  · exact r.carry_bind fun holds => rfl

theorem not_natural : Natural not :=
  .unary (fun r a => by simp [not, Value.recast]) rfl fun _ _ _ => rfl

theorem len_natural : Natural len := by
  refine .unary (fun r a => ?_) rfl fun _ _ _ => rfl
  cases a with
  | list items => simp [len, Value.recast]
  | map entries => simp [len, Value.recast]
  | string _ | nil => rfl
  | _ => exact congrArg Except.error (Native.len.mismatch_recast r _ _)

theorem first_natural : Natural first := by
  refine .unary (fun r a => ?_) rfl fun _ _ _ => rfl
  simp only [first, Native.items_recast]
  refine r.carry_bind fun items => ?_
  cases items <;> rfl

theorem rest_natural : Natural rest := by
  refine .unary (fun r a => ?_) rfl fun _ _ _ => rfl
  simp only [rest, Native.items_recast]
  refine r.carry_bind fun items => ?_
  simp [Value.recast]

theorem nth_natural : Natural nth := by
  refine .binary (fun r a b => ?_) rfl (fun _ => rfl) fun _ _ _ _ => rfl
  simp only [nth, Native.items_recast, Native.index_recast]
  refine r.carry_bind fun items => r.carry_bind fun i => ?_
  rw [id, List.getElem?_map]
  cases items[i]? <;> rfl

theorem cons_natural : Natural cons := by
  refine .binary (fun r a b => ?_) rfl (fun _ => rfl) fun _ _ _ _ => rfl
  simp only [cons, Native.items_recast]
  refine r.carry_bind fun items => ?_
  simp [Value.recast]

theorem append_natural : Natural append := by
  intro r args
  rw [append, r.carry_mapM (Native.append.items_recast r)]
  refine r.carry_bind fun lists => ?_
  simp [Value.recast, List.map_flatten]

theorem getOr_recast (r : Recast) (source place default : Value) :
    getOr (source.recast r) (place.recast r) (default.recast r) =
      r.carry (Value.recast r) (getOr source place default) := by
  have fromEntries (other : Value) :
      (do let entries ← Native.get.entries (other.recast r)
          let key ← Native.get.key (place.recast r)
          return (Keyed.find? key entries).getD (default.recast r)) =
        r.carry (Value.recast r) (do
          let entries ← Native.get.entries other
          let key ← Native.get.key place
          return (Keyed.find? key entries).getD default) := by
    rw [Native.entries_recast, Native.key_recast]
    refine r.carry_bind fun entries => r.carry_bind fun key => ?_
    rw [id, Keyed.find?_map]
    cases Keyed.find? key entries <;> rfl
  cases source with
  | list items =>
      simp only [getOr, Value.recast, Native.index_recast, Value.recastItems_eq]
      refine r.carry_bind fun i => ?_
      rw [id, List.getElem?_map]
      cases items[i]? <;> rfl
  | _ => exact fromEntries _

theorem get_natural : Natural get := by
  intro r args
  match args with
  | [a, b] => exact getOr_recast r a b .nil
  | [a, b, c] => exact getOr_recast r a b c
  | [] | [_] | _ :: _ :: _ :: _ :: _ =>
      simp only [List.map_nil, List.map_cons, get]
      exact Native.wrongCount_recast r _ _ _ (by simp)

theorem assocAll_recast (r : Recast) (entries : List (Key × Value)) (pairs : List Value) :
    assocAll (entries.map fun entry => (entry.1, entry.2.recast r)) (pairs.map (Value.recast r)) =
      r.carry (List.map fun entry => (entry.1, entry.2.recast r)) (assocAll entries pairs) := by
  fun_induction assocAll entries pairs with
  | case1 entries k v more ih =>
      simp only [List.map_cons, assocAll, Native.key_recast]
      refine r.carry_bind fun key => ?_
      rw [id, Keyed.insert_map]
      exact ih key
  | case2 entries pairs few =>
      match pairs with
      | [] | [_] => rfl
      | k :: v :: more => exact absurd rfl (few k v more)

theorem assoc_natural : Natural assoc := by
  intro r args
  match args with
  | m :: k :: v :: more =>
      simp only [List.map_cons, assoc, List.length_map, Native.entries_recast]
      split
      · refine r.carry_bind fun entries => ?_
        rw [← List.map_cons, ← List.map_cons, assocAll_recast]
        refine r.carry_bind fun written => ?_
        simp [Value.recast]
      · exact Native.wrongCount_recast r _ _ _ (by simp)
  | [] | [_] | [_, _] =>
      simp only [List.map_nil, List.map_cons, assoc]
      exact Native.wrongCount_recast r _ _ _ (by simp)

theorem keys_natural : Natural keys := by
  refine .unary (fun r a => ?_) rfl fun _ _ _ => rfl
  simp only [keys, Native.entries_recast]
  refine r.carry_bind fun entries => ?_
  have fixed (key : Key) : key.value.recast r = key.value := by cases key <;> rfl
  simp [Value.recast, Function.comp_def, fixed]

theorem str_natural : Natural str := by
  intro r args
  have spelled (v : Value) : spell (v.recast r) = spell v := by
    cases v with
    | string text => rfl
    | _ => exact Value.render_recast r _
  simp [str, Value.recast, Function.comp_def, spelled]

theorem upper_natural : Natural upper := by
  refine .unary (fun r a => ?_) rfl fun _ _ _ => rfl
  simp only [upper, Native.string_recast]
  exact r.carry_bind fun text => rfl

theorem lower_natural : Natural lower := by
  refine .unary (fun r a => ?_) rfl fun _ _ _ => rfl
  simp only [lower, Native.string_recast]
  exact r.carry_bind fun text => rfl

theorem error_natural : Natural error := by
  intro r args
  match args with
  | [a] =>
      simp only [List.map_cons, List.map_nil, error, Native.string_recast]
      exact r.carry_bind fun name => rfl
  | [a, b] =>
      simp only [List.map_cons, List.map_nil, error, Native.string_recast]
      exact r.carry_bind fun name => r.carry_bind fun message => rfl
  | [] | _ :: _ :: _ :: _ =>
      simp only [List.map_nil, List.map_cons, error]
      exact Native.wrongCount_recast r _ _ _ (by simp)

theorem raise_natural : Natural raise :=
  .unary (fun _ _ => rfl) rfl fun _ _ _ => rfl

theorem errorName_natural : Natural errorName := by
  refine .unary (fun r a => ?_) rfl fun _ _ _ => rfl
  simp only [errorName, Native.problem_recast]
  exact r.carry_bind fun problem => rfl

theorem errorMessage_natural : Natural errorMessage := by
  refine .unary (fun r a => ?_) rfl fun _ _ _ => rfl
  simp only [errorMessage, Native.problem_recast]
  exact r.carry_bind fun problem => rfl

theorem typeOf_natural : Natural typeOf :=
  .unary (fun r a => by simp [typeOf, Value.recast]) rfl fun _ _ _ => rfl

end Compute

end Exemplar
