import Exemplar.Proofs.Coinciding

/-!
# Runs under a higher limit

The limit on nested calls shows only where a call is one too many, and the error raised there ends the whole run. A run
that does not end with such an error therefore comes to the same outcome and the same store under every higher limit.
-/

namespace Exemplar

/-- Whether a value is an error with the name of those about calls nested too deeply. -/
def Value.IsRecursionError : Value → Prop
  | .error name _ => name = "RecursionError"
  | _ => False

namespace Store

def withLimit (s : Store) (limit : Nat) : Store := { s with limit := limit }

/-- The second store is the first under the given limit. -/
def Relimited (limit : Nat) (s t : Store) : Prop := t = s.withLimit limit

variable {limit : Nat}

/-- Only calls of functions read the limit, so nothing else tells the two stores apart. -/
theorem Relimited.bisimulation : Bisimulation (Relimited limit) where
  lookup f name alike := by rw [alike]; rfl
  frames alike := by rw [alike]; rfl
  queues alike := by rw [alike]; rfl
  closures alike := by rw [alike]; rfl
  child f bindings alike := by rw [alike]; rfl
  define f name value alike := by rw [alike]; rfl
  assign f name value alike := by rw [alike]; rfl
  addQueue alike := by rw [alike]; rfl
  enqueue q value alike := by rw [alike]; rfl
  publish name value alike := by rw [alike]; rfl
  countClosure alike := by rw [alike]; rfl

end Store

namespace Eval

variable {limit : Nat}

/-- A call for which no room is left ends with an error that no computation around it catches. -/
theorem tooDeep_coincide (other : Eval Value) :
    Coincide (Store.Relimited limit) Value.IsRecursionError (do throw (tooDeep (← get).limit)) other :=
  fun s _ _ => .inl ⟨tooDeep s.limit, rfl, rfl⟩

/-- With more room every call does the same, unless one was too deep. The induction is on the smaller room: a function
of the program that can be entered has one less on both sides. -/
theorem applyAt_coincide {room room' : Nat} (more : room ≤ room') (f : Value) (args : List Value) :
    Coincide (Store.Relimited limit) Value.IsRecursionError (applyAt room f args) (applyAt room' f args) := by
  induction room generalizing room' f args with
  | zero =>
      have enters (enter' : Closure → List Value → Eval Value) :=
        applyWith_coincide (fun c args => @tooDeep_coincide limit (enter' c args)) Store.Relimited.bisimulation
      cases room' with
      | zero => exact enters _ f args
      | succ room' => exact enters _ f args
  | succ room ih =>
      obtain ⟨room', rfl⟩ : ∃ n, room' = n + 1 := ⟨room' - 1, by omega⟩
      apply applyWith_coincide _ Store.Relimited.bisimulation
      apply enter_coincide Store.Relimited.bisimulation Store.Relimited.bisimulation
      · intro s t alike
        rw [alike]
        rfl
      · intro s t alike
        rw [alike]
        rfl
      · exact fun g given => ih (by omega) g given

/-- A computation that does not end with a recursion error under the lower limit ends under the higher one with the same
value or raised value, and in the same store but for the limit. -/
def SameAbove (s : Store) (lower higher : Nat) (x : Eval Value) : Prop :=
  (∀ raised, (x.run.run (s.withLimit lower)).1 = .error raised → ¬ raised.IsRecursionError) →
    x.run.run (s.withLimit higher) =
      ((x.run.run (s.withLimit lower)).1, (x.run.run (s.withLimit lower)).2.withLimit higher)

variable {s : Store} {lower higher : Nat}

theorem SameAbove.of_coincide {x y z : Eval Value}
    (coincide : Coincide (Store.Relimited higher) Value.IsRecursionError x y)
    (low : z.run.run (s.withLimit lower) = x.run.run (s.withLimit lower))
    (high : z.run.run (s.withLimit higher) = y.run.run (s.withLimit higher)) : SameAbove s lower higher z := by
  intro roomy
  rw [low] at roomy ⊢
  rw [high]
  rcases coincide (s.withLimit lower) (s.withLimit higher) rfl with ⟨raised, ended, tooDeep⟩ | ⟨outcome, store⟩
  · exact absurd tooDeep (roomy raised ended)
  · exact Prod.ext outcome.symm store

theorem room_withLimit (raised : lower ≤ higher) : (s.withLimit lower).room ≤ (s.withLimit higher).room :=
  Nat.sub_le_sub_right raised s.depth

theorem program_sameAbove (raised : lower ≤ higher) (scope : Nat) (forms : List Form) :
    SameAbove s lower higher (program scope forms) := by
  have forms_coincide (x : Form) (_ : x ∈ forms) : Same (Store.Relimited higher) Value.IsRecursionError
      (applyAt (s.withLimit lower).room) (applyAt (s.withLimit higher).room) x :=
    form_coincide Store.Relimited.bisimulation (applyAt_coincide (room_withLimit raised)) x
  exact .of_coincide (body_coincide forms_coincide scope .nil) rfl rfl

theorem apply_sameAbove (raised : lower ≤ higher) (f : Value) (args : List Value) :
    SameAbove s lower higher (apply f args) :=
  .of_coincide (applyAt_coincide (room_withLimit raised) f args) rfl rfl

/-- Raising the limit on nested calls changes no program and no call that did not meet it, whatever the store. -/
theorem limit_unseen (s : Store) {lower higher : Nat} (raised : lower ≤ higher) :
    (∀ scope forms, SameAbove s lower higher (program scope forms)) ∧
      ∀ f args, SameAbove s lower higher (apply f args) :=
  ⟨program_sameAbove raised, apply_sameAbove raised⟩

/-- A program that makes one call, assigns a name in it, and then raises an error of another kind. -/
theorem limit_unseen_reference :
    ∃ forms : List Form,
      forms =
        [.group .round [.atom (.symbol "define"), .group .round [.atom (.symbol "f")],
            .group .round [.atom (.symbol "set!"), .atom (.symbol "y"), .atom (.keyword "done")]],
          .group .round [.atom (.symbol "f")], .atom (.symbol "z")] ∧
        ((program 0 forms).run.run (Store.empty.withLimit 1)).1 = .error (unbound "z") ∧
        (program 0 forms).run.run (Store.empty.withLimit 9) = (.error (unbound "z"),
          ((program 0 forms).run.run (Store.empty.withLimit 1)).2.withLimit 9) := by
  refine ⟨_, rfl, rfl, (@limit_unseen Store.empty 1 9 (by decide)).1 0 _ ?_⟩
  intro raised ended
  obtain rfl : unbound "z" = raised := Except.error.inj ended
  simp [Value.IsRecursionError, unbound]

end Eval

end Exemplar
