import Exemplar.Eval
import Mathlib

/-!
# Deep equality

Values are equal when equality sees the same in both: the number of a function and not its code, a zero without its
sign. So equality of values is an equivalence, and comparing neighbours compares all.
-/

namespace Exemplar

namespace Value

/-- A number without the sign of a zero. -/
def unsigned (x : Float) : Float := if x = -0 then 0 else x

-- The facts about equality of floating-point numbers come with Mathlib as a whole only.
theorem sameNumber_iff (x y : Float) : sameNumber x y = true ↔ unsigned x = unsigned y := by
  have zero : (0 : Float) ≠ .nan := by decide
  have minus : (-0 : Float) ≠ .nan := by decide
  have apart : (0 : Float) ≠ -0 := by decide
  rw [sameNumber, Bool.or_eq_true, Bool.and_eq_true, Float.beq_iff_ne_nan_and_eq, Float.isNaN_eq_decide_eq_nan,
    Float.isNaN_eq_decide_eq_nan, decide_eq_true_eq, decide_eq_true_eq]
  unfold unsigned
  split <;> split <;> grind

mutual

/-- What equality sees of a value. -/
def essence : Value → Value
  | number x => number (unsigned x)
  | list items => list (itemEssences items)
  | map entries => map (entryEssences entries)
  | closure c => closure ⟨c.id, none, [], none, [], 0⟩
  | nil => nil
  | bool b => bool b
  | string text => string text
  | keyword name => keyword name
  | symbol name => symbol name
  | native f => native f
  | error name message => error name message
  | queue id => queue id

def itemEssences : List Value → List Value
  | [] => []
  | item :: rest => essence item :: itemEssences rest

def entryEssences : List (Key × Value) → List (Key × Value)
  | [] => []
  | (key, value) :: rest => (key, essence value) :: entryEssences rest

end

theorem entryEssences_eq (entries : List (Key × Value)) :
    entryEssences entries = entries.map fun entry => (entry.1, entry.2.essence) := by
  induction entries with
  | nil => rfl
  | cons entry rest ih => rw [entryEssences, ih, List.map_cons]

mutual

theorem same_iff : (a b : Value) → (a.same b = true ↔ a.essence = b.essence)
  | list xs, b => by
      cases b with
      | list ys => rw [same, sameItems_iff xs ys, essence, essence, list.injEq]
      | _ => simp [same, essence]
  | map xs, b => by
      cases b with
      | map ys => rw [same, sameEntries_iff xs ys, essence, essence, map.injEq]
      | _ => simp [same, essence]
  | number x, b => by
      cases b with
      | number y => rw [same, sameNumber_iff, essence, essence, number.injEq]
      | _ => simp [same, essence]
  | nil, b | bool _, b | string _, b | keyword _, b | symbol _, b | closure _, b | native _, b | error _ _, b
  | queue _, b => by cases b <;> simp [same, essence]

theorem sameItems_iff : (xs ys : List Value) → (sameItems xs ys = true ↔ itemEssences xs = itemEssences ys)
  | [], [] => by simp [sameItems]
  | x :: xs, y :: ys => by
      rw [sameItems, Bool.and_eq_true, same_iff x y, sameItems_iff xs ys, itemEssences, itemEssences, List.cons.injEq]
  | [], _ :: _ | _ :: _, [] => by simp [sameItems, itemEssences]

theorem sameEntries_iff :
    (xs ys : List (Key × Value)) → (sameEntries xs ys = true ↔ entryEssences xs = entryEssences ys)
  | [], [] => by simp [sameEntries]
  | (k, x) :: xs, (l, y) :: ys => by
      rw [sameEntries, Bool.and_eq_true, Bool.and_eq_true, beq_iff_eq, same_iff x y, sameEntries_iff xs ys,
        entryEssences, entryEssences, List.cons.injEq, Prod.mk.injEq]
  | [], _ :: _ | _ :: _, [] => by simp [sameEntries, entryEssences]

end

theorem same_refl (a : Value) : a.same a = true := (same_iff a a).mpr rfl

theorem same_symm {a b : Value} (equal : a.same b = true) : b.same a = true :=
  (same_iff b a).mpr ((same_iff a b).mp equal).symm

theorem same_trans {a b c : Value} (first : a.same b = true) (second : b.same c = true) : a.same c = true :=
  (same_iff a c).mpr (((same_iff a b).mp first).trans ((same_iff b c).mp second))

end Value

namespace Compute

/-- When neighbours are equal, all are equal to the first. -/
theorem allSame_cons (a : Value) (rest : List Value) :
    allSame (a :: rest) = true ↔ ∀ b ∈ rest, b.same a = true := by
  induction rest generalizing a with
  | nil => simp [allSame]
  | cons b rest ih =>
      rw [allSame, Bool.and_eq_true, ih, List.forall_mem_cons]
      -- Both ways the others move along the equality of the first two.
      constructor <;>
        (rintro ⟨first, later⟩
         exact ⟨Value.same_symm first, fun c member => Value.same_trans (later c member) (Value.same_symm first)⟩)

theorem allSame_iff_first (a : Value) (rest : List Value) :
    allSame (a :: rest) = true ↔ ∀ b ∈ a :: rest, b.same a = true := by
  rw [allSame_cons, List.forall_mem_cons]
  exact (and_iff_right (Value.same_refl a)).symm

theorem allSame_iff_all (args : List Value) :
    allSame args = true ↔ ∀ a ∈ args, ∀ b ∈ args, a.same b = true := by
  cases args with
  | nil => simp [allSame]
  | cons first rest =>
      rw [allSame_iff_first]
      constructor
      · intro equal a isA b isB
        exact Value.same_trans (equal a isA) (Value.same_symm (equal b isB))
      · intro equal b member
        exact equal b member first List.mem_cons_self

/-- Which values are compared matters, and not their order. -/
theorem allSame_perm {args others : List Value} (perm : args.Perm others) : allSame args = allSame others := by
  rw [Bool.eq_iff_iff, allSame_iff_all, allSame_iff_all]
  simp only [perm.mem_iff]

theorem equal_cons (f : Native) (expected : Bool) (a : Value) (rest : List Value) :
    equal f expected (a :: rest) = .ok (.bool (allSame (a :: rest) == expected)) := rfl

theorem equal_perm (f : Native) (expected : Bool) {args others : List Value} (perm : args.Perm others) :
    equal f expected args = equal f expected others := by
  cases args with
  | nil => rw [perm.nil_eq]
  | cons a rest =>
      cases others with
      | nil => cases perm.eq_nil
      | cons b more => rw [equal_cons, equal_cons, allSame_perm perm]

end Compute

/-- Equality of values is an equivalence. So `=`, which compares neighbours, tells whether all its arguments equal the
first, which is whether any two of them are equal, whatever their order. And `not=` tells the opposite; without
arguments both raise the same error. -/
theorem Native.equal_compares_all (call : Caller) :
    Equivalence (fun a b : Value => a.same b = true) ∧
    (∀ (first : Value) (rest : List Value), ∃ verdict : Bool,
      Native.equal.run call (first :: rest) = pure (.bool verdict) ∧
      Native.notEqual.run call (first :: rest) = pure (.bool !verdict) ∧
      (verdict = true ↔ ∀ a ∈ first :: rest, a.same first = true) ∧
      (verdict = true ↔ ∀ a ∈ first :: rest, ∀ b ∈ first :: rest, a.same b = true)) ∧
    (∀ args others : List Value, args.Perm others → Native.equal.run call args = Native.equal.run call others ∧
      Native.notEqual.run call args = Native.notEqual.run call others) ∧
    ∀ args, Native.notEqual.run call args = (do return .bool !(← Native.equal.run call args).isTruthy) := by
  refine ⟨⟨Value.same_refl, Value.same_symm, Value.same_trans⟩, fun first rest => ?_, fun args others perm => ?_,
    fun args => ?_⟩
  · refine ⟨Compute.allSame (first :: rest), ?_, ?_, Compute.allSame_iff_first first rest,
      Compute.allSame_iff_all (first :: rest)⟩
    all_goals
      rw [Native.run, Compute.equal_cons]
      cases Compute.allSame (first :: rest) <;> rfl
  · rw [Native.run, Native.run, Native.run, Native.run, Compute.equal_perm .equal true perm,
      Compute.equal_perm .equal false perm]
    exact ⟨rfl, rfl⟩
  · cases args with
    | nil => rfl
    | cons a rest =>
        rw [Native.run, Native.run, Compute.equal_cons, Compute.equal_cons]
        cases Compute.allSame (a :: rest) <;> rfl

/-- Zeros of both signs, what is no number, and one function under two names are equal; a string for a keyword is not,
wherever it stands. -/
theorem Native.equal_compares_all_nested :
    ∃ a b c : Value,
      a = .list [.number 0, .map [(.keyword "k", .number (0 / 0))], .closure ⟨3, none, [], none, [], 0⟩] ∧
      b = .list [.number (-0), .map [(.keyword "k", .number (0 / 0))], .closure ⟨3, some "f", [], none, [], 1⟩] ∧
      c = .list [.number 0, .map [(.string "k", .number (0 / 0))], .closure ⟨3, none, [], none, [], 0⟩] ∧
      a.same b = true ∧ b.same a = true ∧
      Native.equal.run (Eval.applyAt 0) [a, b, a] = pure (.bool true) ∧
      Native.equal.run (Eval.applyAt 0) [c, a, b] = pure (.bool false) ∧
      Native.equal.run (Eval.applyAt 0) [c, a, b] = Native.equal.run (Eval.applyAt 0) [a, b, c] ∧
      Native.notEqual.run (Eval.applyAt 0) [c, a, b] = pure (.bool true) := by
  obtain ⟨equivalence, _, order, opposite⟩ := equal_compares_all (Eval.applyAt 0)
  refine ⟨_, _, _, rfl, rfl, rfl, by decide, equivalence.symm (by decide), rfl, rfl, (order _ _ ?_).1, opposite _⟩
  exact (List.Perm.swap _ _ _).trans ((List.Perm.swap _ _ []).cons _)

end Exemplar
