import Exemplar.Proofs.InnerRun

/-!
# Forms and calls one frame further in

Every form and every call ends alike one frame further in. The proof for forms goes by their size and for calls by
how many more may be nested.
-/

namespace Exemplar

/-- An outcome that ends alike with itself: what it raises holds no function. -/
theorem Agree.refl {α : Type} {x : Except Value α} (plain : ∀ v, x = .error v → v.Moved v) : Agree Eq x x := by
  cases x with
  | ok a => exact .ok rfl
  | error raised => exact .error (plain raised rfl)

theorem parameter_plain (form : Form) (v : Value) (raised : parameter form = .error v) : v.Moved v := by
  unfold parameter at raised
  split at raised
  · cases raised
  · cases raised
    exact ⟨rfl, rfl⟩

theorem parameters_plain (params : List Form) (v : Value) (raised : parameters params = .error v) : v.Moved v := by
  induction params with
  | nil => cases raised
  | cons form more ih =>
      unfold parameters at raised
      cases named : parameter form with
      | error other =>
          simp only [named, bind, Except.bind] at raised
          cases raised
          exact parameter_plain form _ named
      | ok name =>
          simp only [named, bind, Except.bind] at raised
          split at raised
          · cases more with
            | nil => cases raised; exact ⟨rfl, rfl⟩
            | cons last others =>
                cases behind : parameter last with
                | error other =>
                    simp only [behind] at raised
                    cases raised
                    exact parameter_plain last _ behind
                | ok variadic =>
                    simp only [behind] at raised
                    split at raised <;> cases raised
                    exact ⟨rfl, rfl⟩
          · cases others : parameters more with
            | error other =>
                simp only [others] at raised
                cases raised
                exact ih others
            | ok found =>
                simp only [others] at raised
                cases raised

theorem functionParts_agree {args : List Form} (spares : Form.anyAssigns Harness.queueName args = false) :
    Agree (fun parts parts' => parts = parts' ∧ Form.anyAssigns Harness.queueName parts.2 = false)
      (functionParts args) (functionParts args) := by
  unfold functionParts
  split
  · rw [Form.anyAssigns, Bool.or_eq_false_iff] at spares
    exact .ok ⟨rfl, spares.2⟩
  · rw [Form.anyAssigns, Bool.or_eq_false_iff] at spares
    exact .ok ⟨rfl, spares.2⟩
  · exact .error ⟨rfl, rfl⟩

theorem Special.head_of_assign {head : Form} (special : head.symbol?.bind Special.ofName? = some .assign) :
    head = .atom (.symbol "set!") := by
  obtain ⟨name, isSymbol, named⟩ := Option.bind_eq_some_iff.mp special
  have isSet : name = "set!" := by
    refine Decidable.byContradiction fun differs => ?_
    simp only [Special.ofName?, if_neg differs] at named
    repeat' split at named
    all_goals cases named
  subst isSet
  unfold Form.symbol? at isSymbol
  split at isSymbol
  · cases isSymbol
    rfl
  · cases isSymbol

namespace Eval

theorem function_follows (scope : Nat) (name : Option String) (params : List Form) {body : List Form}
    (spares : Form.anyAssigns Harness.queueName body = false) :
    Follows Value.Moved (function scope name params body) (function (scope + 1) name params body) := by
  refine .bind (.ofOutcome (.refl (parameters_plain params))) fun given given' same => ?_
  subst same
  refine .updateGet fun s t linked => ⟨linked.countClosure, ?_⟩
  rw [linked.closures]
  exact ⟨rfl, Recast.sparing_closure.mpr spares⟩

theorem lambda_follows (scope : Nat) (name : Option String) {args : List Form}
    (spares : Form.anyAssigns Harness.queueName args = false) :
    Follows Value.Moved (lambda scope name args) (lambda (scope + 1) name args) := by
  refine .bind (.ofOutcome (functionParts_agree spares)) fun parts parts' both => ?_
  obtain ⟨rfl, spares⟩ := both
  exact function_follows scope name parts.1 spares

/-- A form ends alike in every frame. -/
def Moves (call call' : Caller) (x : Form) : Prop :=
  Form.assigns Harness.queueName x = false →
    ∀ scope, Follows Value.Moved (form call scope x) (form call' (scope + 1) x)

section

variable {call call' : Caller} {items : List Form} (each : ∀ x ∈ items, Moves call call' x)
  (spares : Form.anyAssigns Harness.queueName items = false) (scope : Nat)

include each spares

theorem list_follows : Follows Value.AllMoved (list call scope items) (list call' (scope + 1) items) := by
  induction items with
  | nil => exact .pure .nil
  | cons item rest ih =>
      rw [Form.anyAssigns, Bool.or_eq_false_iff] at spares
      refine .bind (each item (by simp) spares.1 scope) fun _ _ value => ?_
      exact .bind (ih (fun x member => each x (by simp [member])) spares.2) fun _ _ values => .pure (.cons value values)

theorem body_follows {last last' : Value} (moved : last.Moved last') :
    Follows Value.Moved (body call scope last items) (body call' (scope + 1) last' items) := by
  induction items generalizing last last' with
  | nil => exact .pure moved
  | cons item rest ih =>
      rw [Form.anyAssigns, Bool.or_eq_false_iff] at spares
      refine .bind (each item (by simp) spares.1 scope) fun _ _ value => ?_
      exact ih (fun x member => each x (by simp [member])) spares.2 value

theorem conjunction_follows {last last' : Value} (moved : last.Moved last') :
    Follows Value.Moved (conjunction call scope last items) (conjunction call' (scope + 1) last' items) := by
  induction items generalizing last last' with
  | nil => exact .pure moved
  | cons item rest ih =>
      rw [Form.anyAssigns, Bool.or_eq_false_iff] at spares
      refine .bind (each item (by simp) spares.1 scope) fun value value' result => ?_
      rw [show value'.isTruthy = value.isTruthy by rw [result.inner, Value.isTruthy_recast]]
      split
      · exact ih (fun x member => each x (by simp [member])) spares.2 result
      · exact .pure result

theorem disjunction_follows {last last' : Value} (moved : last.Moved last') :
    Follows Value.Moved (disjunction call scope last items) (disjunction call' (scope + 1) last' items) := by
  induction items generalizing last last' with
  | nil => exact .pure moved
  | cons item rest ih =>
      rw [Form.anyAssigns, Bool.or_eq_false_iff] at spares
      refine .bind (each item (by simp) spares.1 scope) fun value value' result => ?_
      rw [show value'.isTruthy = value.isTruthy by rw [result.inner, Value.isTruthy_recast]]
      split
      · exact .pure result
      · exact ih (fun x member => each x (by simp [member])) spares.2 result

end

theorem entries_follows {call call' : Caller} (scope : Nat) :
    (items : List Form) → (∀ x ∈ items, Moves call call' x) → Form.anyAssigns Harness.queueName items = false →
      ∀ {written written' : List (Key × Value)}, Value.PairsMoved written written' →
        Follows Value.PairsMoved (entries call scope written items) (entries call' (scope + 1) written' items)
  | [], _, _, _, _, moved => .pure moved
  | [_], _, _, _, _, moved => .pure moved
  | key :: value :: rest, each, spares, written, written', moved => by
      rw [Form.anyAssigns, Form.anyAssigns, Bool.or_eq_false_iff, Bool.or_eq_false_iff] at spares
      refine .bind (each key (by simp) spares.1 scope) fun k k' isKey => ?_
      rw [isKey.inner, Value.key?_recast, Value.type_recast]
      split
      · next name _ =>
          refine .bind (each value (by simp) spares.2.1 scope) fun v v' isValue => ?_
          refine entries_follows scope rest (fun x member => each x (by simp [member])) spares.2.2 ?_
          exact Moved.map₂ (fun r v pairs => Keyed.insert_map (Value.recast r) name v pairs) isValue moved
      · exact .throw ⟨rfl, rfl⟩

theorem named_follows {call call' : Caller} (scope : Nat) (name : String) {x : Form} (moves : Moves call call' x)
    (spares : Form.assigns Harness.queueName x = false) :
    Follows Value.Moved (named scope name x (form call scope x))
      (named (scope + 1) name x (form call' (scope + 1) x)) := by
  unfold named
  split
  · next args =>
      rw [Form.assigns, Bool.or_eq_false_iff, Form.anyAssigns, Bool.or_eq_false_iff] at spares
      exact lambda_follows scope (some name) spares.2.2
  · exact moves spares scope

theorem bindings_follows {call call' : Caller} (scope : Nat) {items : List Form}
    (each : ∀ name value, .group .round [.atom (.symbol name), value] ∈ items → Moves call call' value)
    (spares : Form.anyAssigns Harness.queueName items = false) :
    Follows Eq (bindings call scope items) (bindings call' (scope + 1) items) := by
  induction items with
  | nil => exact .pure rfl
  | cons pair rest ih =>
      rw [Form.anyAssigns, Bool.or_eq_false_iff] at spares
      rw [bindings.eq_def, bindings.eq_def call']
      dsimp only
      split
      · next name value =>
          have inside : Form.assigns Harness.queueName value = false := by
            have all := spares.1
            rw [Form.assigns, Form.anyAssigns, Form.anyAssigns, Form.anyAssigns] at all
            simp only [Bool.or_eq_false_iff] at all
            exact all.2.2.1
          refine .bind (named_follows scope name (each name value (by simp)) inside) fun v v' moved => ?_
          refine .bind (.update fun s t linked => linked.define scope name moved) fun _ _ _ => ?_
          exact ih (fun name value member => each name value (by simp [member])) spares.2
      · exact .throw ⟨rfl, rfl⟩
      · exact .throw ⟨rfl, rfl⟩

theorem atom_follows (scope : Nat) (a : Atom) : Follows Value.Moved (atom scope a) (atom (scope + 1) a) := by
  cases a with
  | symbol name =>
      refine .bind .read fun s t linked => ?_
      have found := linked.lookup scope name
      cases bound : s.lookup? scope name with
      | none =>
          rw [bound] at found
          rw [found.inner]
          exact .throw ⟨rfl, rfl⟩
      | some value =>
          rw [bound] at found
          rw [found.inner]
          exact .pure ⟨rfl, Option.some.inj found.sparing⟩
  | _ => exact .pure ⟨rfl, rfl⟩

theorem defineFunction_follows (scope : Nat) (signature : List Form) {body : List Form}
    (spares : Form.anyAssigns Harness.queueName body = false) :
    Follows Value.Moved (defineFunction scope signature body) (defineFunction (scope + 1) signature body) := by
  unfold defineFunction
  split
  · next name params =>
      refine .bind (function_follows scope (some name) params spares) fun f f' moved => ?_
      exact .bind (.update fun s t linked => linked.define scope name moved) fun _ _ _ => .pure ⟨rfl, rfl⟩
  · exact .throw ⟨rfl, rfl⟩

section Special

variable {call call' : Caller} {head : Form} {args : List Form} (scope : Nat)

theorem quote_follows (special : head.symbol?.bind Special.ofName? = some .quote) :
    Follows Value.Moved (form call scope (.group .round (head :: args)))
      (form call' (scope + 1) (.group .round (head :: args))) := by
  rw [form.eq_def, form.eq_def call']
  simp only [special]
  split
  · next inner => exact .pure ⟨(Value.quoted_recast .inner inner).symm, Value.quoted_recast .sparing inner⟩
  · exact .throw ⟨rfl, rfl⟩

variable (each : ∀ x ∈ args, Moves call call' x) (spares : Form.anyAssigns Harness.queueName args = false)

include each spares

theorem cond_follows (special : head.symbol?.bind Special.ofName? = some .cond) :
    Follows Value.Moved (form call scope (.group .round (head :: args)))
      (form call' (scope + 1) (.group .round (head :: args))) := by
  rw [form.eq_def, form.eq_def call']
  simp only [special]
  split
  · next condition yes =>
      simp only [Form.anyAssigns, Bool.or_eq_false_iff] at spares
      refine .bind (each condition (by simp) spares.1 scope) fun v v' moved => ?_
      rw [show v'.isTruthy = v.isTruthy by rw [moved.inner, Value.isTruthy_recast]]
      split
      · exact each yes (by simp) spares.2.1 scope
      · exact .pure ⟨rfl, rfl⟩
  · next condition yes no =>
      simp only [Form.anyAssigns, Bool.or_eq_false_iff] at spares
      refine .bind (each condition (by simp) spares.1 scope) fun v v' moved => ?_
      rw [show v'.isTruthy = v.isTruthy by rw [moved.inner, Value.isTruthy_recast]]
      split
      · exact each yes (by simp) spares.2.1 scope
      · exact each no (by simp) spares.2.2.1 scope
  · exact .throw ⟨rfl, rfl⟩

theorem define_follows (special : head.symbol?.bind Special.ofName? = some .define) :
    Follows Value.Moved (form call scope (.group .round (head :: args)))
      (form call' (scope + 1) (.group .round (head :: args))) := by
  rw [form.eq_def, form.eq_def call']
  simp only [special]
  split
  · exact .throw ⟨rfl, rfl⟩
  · next signature rest =>
      rw [Form.anyAssigns, Bool.or_eq_false_iff] at spares
      exact defineFunction_follows scope signature spares.2
  · next name rest =>
      split
      · exact .bind (.update fun s t linked => linked.define scope name ⟨rfl, rfl⟩) fun _ _ _ => .pure ⟨rfl, rfl⟩
      · next value =>
          simp only [Form.anyAssigns, Bool.or_eq_false_iff] at spares
          refine .bind (named_follows scope name (each value (by simp)) spares.2.1) fun v v' moved => ?_
          exact .bind (.update fun s t linked => linked.define scope name moved) fun _ _ _ => .pure ⟨rfl, rfl⟩
      · exact .throw ⟨rfl, rfl⟩
  · exact .throw ⟨rfl, rfl⟩

theorem assign_follows (special : head.symbol?.bind Special.ofName? = some .assign)
    (other : Form.isAssignment Harness.queueName (head :: args) = false) :
    Follows Value.Moved (form call scope (.group .round (head :: args)))
      (form call' (scope + 1) (.group .round (head :: args))) := by
  rw [form.eq_def, form.eq_def call']
  simp only [special]
  split
  · next target value =>
      simp only [Form.anyAssigns, Bool.or_eq_false_iff] at spares
      split
      · next name =>
          have differs : name ≠ Harness.queueName := by
            rintro rfl
            rw [Special.head_of_assign special, Form.isAssignment, BEq.rfl] at other
            cases other
          refine .bind (each value (by simp) spares.2.1 scope) fun v v' moved => ?_
          exact .bind (.update fun s t linked => linked.assign scope differs moved) fun _ _ _ => .pure moved
      · exact .throw ⟨rfl, rfl⟩
  · exact .throw ⟨rfl, rfl⟩

theorem publish_follows (special : head.symbol?.bind Special.ofName? = some .publish) :
    Follows Value.Moved (form call scope (.group .round (head :: args)))
      (form call' (scope + 1) (.group .round (head :: args))) := by
  rw [form.eq_def, form.eq_def call']
  simp only [special]
  split
  · next name value =>
      simp only [Form.anyAssigns, Bool.or_eq_false_iff] at spares
      refine .bind (each name (by simp) spares.1 scope) fun v v' moved => ?_
      have same := moved.inner
      subst same
      cases v with
      | string text =>
          refine .bind (each value (by simp) spares.2.1 scope) fun w w' result => ?_
          exact .bind (.update fun s t linked => linked.publish text text w w') fun _ _ _ => .pure result
      | _ => exact .throw ⟨rfl, rfl⟩
  · exact .throw ⟨rfl, rfl⟩

theorem binding_follows (special : head.symbol?.bind Special.ofName? = some .binding)
    (inside : ∀ pairs, .group .round pairs ∈ args → ∀ name value, .group .round [.atom (.symbol name), value] ∈ pairs →
      Moves call call' value) :
    Follows Value.Moved (form call scope (.group .round (head :: args)))
      (form call' (scope + 1) (.group .round (head :: args))) := by
  rw [form.eq_def, form.eq_def call']
  simp only [special]
  split
  · exact .throw ⟨rfl, rfl⟩
  · next pairs rest =>
      rw [Form.anyAssigns, Bool.or_eq_false_iff, Form.assigns, Bool.or_eq_false_iff] at spares
      have opened : Follows (fun inner inner' => inner' = inner + 1) (child scope []) (child (scope + 1) []) :=
        .updateGet fun s t linked => ⟨linked.child scope ⟨rfl, rfl⟩, linked.size⟩
      refine .bind opened fun inner inner' next => ?_
      subst next
      refine .bind (bindings_follows inner (inside pairs (by simp)) spares.1.2) fun _ _ _ => ?_
      exact body_follows (fun x member => each x (by simp [member])) spares.2 inner ⟨rfl, rfl⟩
  · exact .throw ⟨rfl, rfl⟩

end Special

/-- Every form ends alike one frame further in. -/
theorem form_follows {call call' : Caller} (calls : Calls call call') (x : Form) : Moves call call' x := by
  intro spares scope
  have smaller (y : Form) (less : sizeOf y < sizeOf x) : Moves call call' y := form_follows calls y
  match x with
  | .atom a => exact atom_follows scope a
  | .quote inner => exact .pure ⟨(Value.quoted_recast .inner inner).symm, Value.quoted_recast .sparing inner⟩
  | .group .square items =>
      rw [Form.assigns, Bool.or_eq_false_iff] at spares
      rw [form, form]
      exact .bind (list_follows (fun y member => smaller y (Form.smaller_item member)) spares.2 scope)
        fun _ _ values => .pure values.list
  | .group .curly items =>
      rw [Form.assigns, Bool.or_eq_false_iff] at spares
      rw [form, form]
      have each (y : Form) (member : y ∈ items) : Moves call call' y := smaller y (Form.smaller_item member)
      split
      · exact .bind (entries_follows scope items each spares.2 ⟨rfl, rfl⟩)
          fun _ _ written => .pure (written.map fun r pairs => by simp [Value.recast])
      · exact .throw ⟨rfl, rfl⟩
  | .group .round [] => exact .pure ⟨rfl, rfl⟩
  | .group .round (head :: args) =>
      rw [Form.assigns, Bool.or_eq_false_iff, Form.anyAssigns, Bool.or_eq_false_iff] at spares
      obtain ⟨other, inHead, inArgs⟩ := spares
      have each (y : Form) (member : y ∈ args) : Moves call call' y :=
        smaller y (Form.smaller_item (List.mem_cons_of_mem head member))
      cases special : head.symbol?.bind Special.ofName? with
      | none =>
          rw [form.eq_def, form.eq_def call']
          simp only [special]
          refine .bind (smaller head (Form.smaller_item List.mem_cons_self) inHead scope) fun f f' function => ?_
          exact .bind (list_follows each inArgs scope) fun values values' given =>
            calls f f' values values' function given
      | some kind =>
          cases kind with
          | quote => exact quote_follows scope special
          | cond => exact cond_follows scope each inArgs special
          | seq =>
              rw [form.eq_def, form.eq_def call']
              simp only [special]
              exact body_follows each inArgs scope ⟨rfl, rfl⟩
          | define => exact define_follows scope each inArgs special
          | assign => exact assign_follows scope each inArgs special (by simpa using other)
          | lambda =>
              rw [form.eq_def, form.eq_def call']
              simp only [special]
              exact lambda_follows scope Option.none inArgs
          | binding =>
              refine binding_follows scope each inArgs special fun pairs isPairs name value isPair => smaller value ?_
              have inPair : value ∈ [.atom (.symbol name), value] := by simp
              exact Nat.lt_trans (Form.smaller_item inPair)
                (Nat.lt_trans (Form.smaller_item isPair) (Form.smaller_item (List.mem_cons_of_mem head isPairs)))
          | conj =>
              rw [form.eq_def, form.eq_def call']
              simp only [special]
              exact conjunction_follows each inArgs scope ⟨rfl, rfl⟩
          | disj =>
              rw [form.eq_def, form.eq_def call']
              simp only [special]
              exact disjunction_follows each inArgs scope ⟨rfl, rfl⟩
          | publish => exact publish_follows scope each inArgs special
termination_by sizeOf x

/-! ## Calls -/

theorem nested_follows {α β : Type} {related : α → β → Prop} {x : Eval α} {y : Eval β} (follows : Follows related x y) :
    Follows related (nested x) (nested y) := by
  intro s t linked
  obtain ⟨linked', agree⟩ := follows _ _ linked.descend
  exact ⟨linked'.ascend, agree⟩

theorem bind_recast (c : Closure) (r : Recast) (args : List Value) :
    c.bind (args.map (Value.recast r)) = (c.bind args).map fun pair => (pair.1, pair.2.recast r) := by
  have named : Keyed.insertAll (c.params.zip (args.map (Value.recast r))) [] =
      (Keyed.insertAll (c.params.zip args) []).map fun pair => (pair.1, pair.2.recast r) := by
    rw [List.zip_map_right]
    exact Keyed.insertAll_map (Value.recast r) (c.params.zip args) []
  unfold Closure.bind
  rw [named]
  cases c.rest with
  | none => rfl
  | some name =>
      have list : Value.list ((args.map (Value.recast r)).drop c.params.length) =
          (Value.list (args.drop c.params.length)).recast r := by
        simp [Value.recast, List.map_drop]
      simp only [list]
      exact Keyed.insert_map (Value.recast r) name _ _

theorem enter_follows {call call' : Caller} (calls : Calls call call') {c c' : Closure}
    (moved : (Value.closure c).Moved (.closure c')) {args args' : List Value} (given : Value.AllMoved args args') :
    Follows Value.Moved (Closure.enter call c args) (Closure.enter call' c' args') := by
  have inner : c' = Recast.inner.closure c := Value.closure.inj moved.inner
  have spares := Recast.sparing_closure.mp moved.sparing
  subst inner
  unfold Closure.enter
  have accepts : (Recast.inner.closure c).accepts args'.length = c.accepts args.length := by rw [given.length]; rfl
  rw [accepts, given.length]
  split
  · have opened : Follows (fun scope scope' => scope' = scope + 1) (child c.scope (c.bind args))
        (child (c.scope + 1) (c.bind args')) :=
      .updateGet fun s t linked => ⟨linked.child c.scope (given.map (bind_recast c)), linked.size⟩
    refine .bind opened fun scope scope' next => ?_
    subst next
    exact nested_follows (body_follows (fun x _ => form_follows calls x) spares scope ⟨rfl, rfl⟩)
  · exact .throw ⟨rfl, rfl⟩

theorem notCallable_moved {v w : Value} (moved : v.Moved w) : (notCallable v).Moved (notCallable w) := by
  rw [notCallable, notCallable, moved.inner, Value.render_recast]
  exact ⟨rfl, rfl⟩

section

variable {enter enter' : Closure → List Value → Eval Value}
  (enters : ∀ c c' args args', (Value.closure c).Moved (.closure c') → Value.AllMoved args args' →
    Follows Value.Moved (enter c args) (enter' c' args'))

include enters

theorem dispatch_follows {native native' : Native → List Value → Eval Value}
    (natives : ∀ f args args', Value.AllMoved args args' → Follows Value.Moved (native f args) (native' f args')) :
    Calls (dispatch enter native) (dispatch enter' native') := by
  intro f f' args args' moved given
  have same := moved.inner
  subst same
  cases f with
  | closure c => exact enters c _ args args' moved given
  | native f => exact natives f args args' given
  | _ => exact .throw (notCallable_moved moved)

theorem applyNative_follows (width : Nat) (f : Native) {args args' : List Value} (given : Value.AllMoved args args') :
    Follows Value.Moved (applyNative enter width f args) (applyNative enter' width f args') := by
  induction width generalizing f args args' with
  | zero => exact f.run_follows (fun g g' _ _ moved _ => .throw (notCallable_moved moved)) given
  | succ width ih => exact f.run_follows (dispatch_follows enters fun g _ _ given => ih g given) given

theorem applyWith_follows : Calls (applyWith enter) (applyWith enter') := by
  intro f f' args args' moved given
  unfold applyWith
  rw [given.length]
  exact dispatch_follows enters (fun g _ _ given => applyNative_follows enters args.length g given) f f' args args' moved
    given

end

/-- Every call ends alike one frame further in. -/
theorem applyAt_follows (room : Nat) : Calls (applyAt room) (applyAt room) := by
  induction room with
  | zero =>
      refine applyWith_follows fun _ _ _ _ _ _ => .bind .read fun s t linked => ?_
      rw [linked.limit]
      exact .throw ⟨rfl, rfl⟩
  | succ room ih => exact applyWith_follows fun _ _ _ _ moved given => enter_follows ih moved given

theorem apply_follows {f f' : Value} (moved : f.Moved f') {args args' : List Value}
    (given : Value.AllMoved args args') :
    Follows Value.Moved (apply f args) (apply f' args') := by
  refine .bind .read fun s t linked => ?_
  rw [linked.room]
  exact applyAt_follows s.room f f' args args' moved given

end Eval

end Exemplar
