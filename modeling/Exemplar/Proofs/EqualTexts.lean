import Exemplar.Proofs.DeepEquality
import Exemplar.Proofs.KnownFunctions
import Exemplar.Proofs.ModuleRun
import Exemplar.Proofs.QueueOrder

/-!
# Texts of equal values

Equal values are shown alike, as long as one number stands for one function. It does for all values of one run, so that
an example that passes shows what was expected.
-/

namespace Exemplar

/-- Functions with one number have one name. -/
def Closure.Consistent (left right : List Closure) : Prop := ∀ c ∈ left, ∀ d ∈ right, c.id = d.id → c.name = d.name

theorem Closure.Consistent.mono {left right left' right' : List Closure} (consistent : Consistent left right)
    (inLeft : left' ⊆ left) (inRight : right' ⊆ right) : Consistent left' right' :=
  fun c first d second => consistent c (inLeft first) d (inRight second)

namespace Value

variable {made : List Closure}

theorem From.consistent {v w : Value} (left : v.From made) (right : w.From made) :
    Closure.Consistent v.functions w.functions := by
  intro c inLeft d inRight same
  have found := left c inLeft
  rw [same, right d inRight] at found
  rw [Option.some.inj found]

theorem show_unsigned (x : Float) : numberStyle.show (unsigned x) = numberStyle.show x := by
  have zeros : numberStyle.show 0 = numberStyle.show (-0) := by decide
  unfold unsigned
  split
  · next minus => rw [minus, zeros]
  · rfl

/-- Numbers that are equal without being one are zeros, which are shown without their signs. -/
theorem show_of_sameNumber {x y : Float} (equal : sameNumber x y = true) : numberStyle.show x = numberStyle.show y := by
  rw [← show_unsigned x, (sameNumber_iff x y).mp equal, show_unsigned]

mutual

theorem render_of_same : (a b : Value) → Closure.Consistent a.functions b.functions → a.same b = true →
    a.render = b.render
  | list xs, b, consistent, equal => by
      cases b with
      | list ys => rw [render, render, renderItems_of_same xs ys consistent equal]
      | _ => cases equal
  | map xs, b, consistent, equal => by
      cases b with
      | map ys => rw [render, render, renderEntries_of_same xs ys consistent equal]
      | _ => cases equal
  | closure c, b, consistent, equal => by
      cases b with
      | closure d =>
          have names := consistent c List.mem_cons_self d List.mem_cons_self (eq_of_beq equal)
          rw [render, render, names]
      | _ => cases equal
  | number x, b, _, equal => by
      cases b with
      | number y => exact show_of_sameNumber equal
      | _ => cases equal
  | error name message, b, _, equal => by
      cases b with
      | error name' message' =>
          rw [same, Bool.and_eq_true, beq_iff_eq, beq_iff_eq] at equal
          rw [equal.1, equal.2]
      | _ => cases equal
  | nil, b, _, equal => by
      cases b with
      | nil => rfl
      | _ => cases equal
  | queue _, b, _, equal => by
      cases b with
      | queue _ => rfl
      | _ => cases equal
  | bool p, b, _, equal => by
      cases b with
      | bool q => rw [eq_of_beq equal]
      | _ => cases equal
  | string text, b, _, equal => by
      cases b with
      | string text' => rw [eq_of_beq equal]
      | _ => cases equal
  | keyword name, b, _, equal => by
      cases b with
      | keyword name' => rw [eq_of_beq equal]
      | _ => cases equal
  | symbol name, b, _, equal => by
      cases b with
      | symbol name' => rw [eq_of_beq equal]
      | _ => cases equal
  | native f, b, _, equal => by
      cases b with
      | native g => rw [eq_of_beq equal]
      | _ => cases equal

theorem renderItems_of_same : (xs ys : List Value) → Closure.Consistent (itemFunctions xs) (itemFunctions ys) →
    sameItems xs ys = true → renderItems xs = renderItems ys
  | [], [], _, _ => rfl
  | x :: xs, y :: ys, consistent, equal => by
      rw [sameItems, Bool.and_eq_true] at equal
      replace consistent : Closure.Consistent (functions x ++ itemFunctions xs) (functions y ++ itemFunctions ys) :=
        consistent
      have first := render_of_same x y (consistent.mono (by simp) (by simp)) equal.1
      have later := renderItems_of_same xs ys (consistent.mono (by simp) (by simp)) equal.2
      cases xs <;> cases ys <;> first | exact first | simp_all [sameItems, renderItems]
  | [], _ :: _, _, equal | _ :: _, [], _, equal => by cases equal

theorem renderEntries_of_same : (xs ys : List (Key × Value)) →
    Closure.Consistent (entryFunctions xs) (entryFunctions ys) → sameEntries xs ys = true →
      renderEntries xs = renderEntries ys
  | [], [], _, _ => rfl
  | (k, x) :: xs, (l, y) :: ys, consistent, equal => by
      rw [sameEntries, Bool.and_eq_true, Bool.and_eq_true, beq_iff_eq] at equal
      replace consistent : Closure.Consistent (functions x ++ entryFunctions xs) (functions y ++ entryFunctions ys) :=
        consistent
      have first := render_of_same x y (consistent.mono (by simp) (by simp)) equal.1.2
      have later := renderEntries_of_same xs ys (consistent.mono (by simp) (by simp)) equal.2
      cases xs <;> cases ys <;> simp_all [sameEntries, renderEntries]
  | [], _ :: _, _, equal | _ :: _, [], _, equal => by cases equal

end

end Value

namespace Verdict

/-- The functions in the value that an outcome is. -/
def functions : Except Value Value → List Closure
  | .ok value => value.functions
  | .error _ => []

theorem exists_raised {name message : String} {outcome : Except Value Value}
    (raised : raises name message outcome = true) :
    ∃ message', outcome = .error (.error name message') ∧ (message.isEmpty = true ∨ message' = message) := by
  unfold raises at raised
  split at raised
  · next name' message' =>
      rw [Bool.and_eq_true, Bool.or_eq_true, beq_iff_eq, beq_iff_eq] at raised
      exact ⟨message', by rw [raised.1], raised.2⟩
  · cases raised

theorem judge_texts {actual expected : Except Value Value}
    (consistent : Closure.Consistent (functions actual) (functions expected)) {negate : Bool} {line : Nat}
    (passed : (judge actual expected negate line).pass = true) :
    (judge actual expected negate line).actual = (judge actual expected negate line).expected := by
  cases expected with
  | error raised => cases passed
  | ok expected =>
      cases negate with
      | false =>
          cases actual with
          | error raised => cases passed
          | ok value => exact Value.render_of_same value expected consistent passed
      | true =>
          unfold judge at passed ⊢
          dsimp only [if_true] at passed ⊢
          generalize expectedError expected = error at passed ⊢
          obtain ⟨name, message⟩ := error
          obtain ⟨message', rfl, told⟩ := exists_raised passed
          rcases told with silent | rfl
          · rw [silent]
            rfl
          · rfl

/-- Every verdict compares two outcomes of the run, or `nil` with one. -/
theorem exists_judge {entries : List Entry} {outcomes : List (Except Value Value)} {verdict : Verdict}
    (member : verdict ∈ verdicts entries outcomes) :
    ∃ actual expected negate line, verdict = judge actual expected negate line ∧
      (actual = .ok .nil ∨ actual ∈ outcomes) ∧ expected ∈ outcomes := by
  obtain ⟨⟨before, ran⟩, inPairs, judged⟩ := List.mem_filterMap.mp member
  obtain ⟨isBefore, isRan⟩ := List.of_mem_zip inPairs
  have among {ran : Ran} (member : ran ∈ entries.zip outcomes) : ran.2 ∈ outcomes := (List.of_mem_zip member).2
  unfold ofRan? at judged
  split at judged
  · cases judged
    refine ⟨_, _, _, _, rfl, ?_, among isRan⟩
    cases before with
    | none => exact .inl rfl
    | some earlier =>
        rw [outcomeBefore]
        split
        · exact .inl rfl
        · have wasRun : earlier ∈ entries.zip outcomes := by simpa using isBefore
          exact .inr (among wasRun)
  · cases judged

/-- An example passes only with the text that was expected, when all outcomes of the run are consistent. -/
theorem run_texts {σ : Type} (invoke : Value → StateM σ (Except Value Value)) (entries : List Entry) (s : σ)
    (consistent : ∀ x ∈ ((applyAll invoke entries).run s).1, ∀ y ∈ ((applyAll invoke entries).run s).1,
      Closure.Consistent (functions x) (functions y)) :
    ∀ verdict ∈ ((run invoke [] entries).run s).1, verdict.pass = true → verdict.actual = verdict.expected := by
  intro verdict member passed
  rw [run_eq_applyAll] at member
  obtain ⟨actual, expected, negate, line, rfl, isActual, isExpected⟩ := exists_judge member
  refine judge_texts ?_ passed
  rcases isActual with rfl | isActual
  · intro c inNil
    cases inNil
  · exact consistent actual isActual expected isExpected

/-! ## Runs of programs -/

variable {made : List Closure}

theorem functions_consistent {x y : Except Value Value} (left : OutcomeFrom made (Value.From made) x)
    (right : OutcomeFrom made (Value.From made) y) : Closure.Consistent (functions x) (functions y) := by
  cases x with
  | error raised => exact fun c member => absurd member List.not_mem_nil
  | ok v =>
      cases y with
      | error raised => exact fun c _ d member => absurd member List.not_mem_nil
      | ok w => exact Value.From.consistent left right

theorem applyAll_from {entries : List Entry} (thunks : ∀ e ∈ entries, e.thunk.From made) {s : Store}
    (known : s.From made) :
    ∃ later, made <+: later ∧
      ∀ outcome ∈ ((entries.mapM fun e => Program.invoke e.thunk).run s).1,
        OutcomeFrom later (Value.From later) outcome := by
  induction entries generalizing made s with
  | nil => exact ⟨made, List.prefix_refl _, fun _ member => absurd member List.not_mem_nil⟩
  | cons e rest ih =>
      obtain ⟨middle, grows, known', ends⟩ :=
        Eval.apply_yields (thunks e List.mem_cons_self) Value.allFrom_nil s known
      obtain ⟨later, grows', each⟩ :=
        ih (fun e member => (thunks e (List.mem_cons_of_mem _ member)).mono grows) known'
      refine ⟨later, grows.trans grows', fun outcome member => ?_⟩
      rw [List.mapM_cons] at member
      rcases List.mem_cons.mp member with rfl | member
      · exact ends.mono grows'
      · exact each outcome member

end Verdict

/-- A value is bound to a name, waits in a queue or is exported. -/
def Store.Holds (s : Store) (v : Value) : Prop :=
  (∃ f name, s.binding? f name = some v) ∨ (∃ q, v ∈ s.queue q) ∨ ∃ name, Keyed.find? name s.exports = some v

theorem Store.From.of_holds {made : List Closure} {s : Store} (known : s.From made) {v : Value} (holds : s.Holds v) :
    v.From made := by
  rcases holds with ⟨f, name, bound⟩ | ⟨q, member⟩ | ⟨name, found⟩
  · exact known.binding f name v bound
  · exact known.queue q v member
  · exact known.published name v found

/-- Before a program no function has been made. -/
theorem Store.Fresh.from_nil {s : Store} (fresh : s.Fresh) (unmade : s.closures = 0) (unpublished : s.exports = []) :
    s.From [] where
  closures := unmade
  binding f name v bound := by
    cases f with
    | zero =>
        have plain (r : Recast) := fresh.plain r name
        rw [bound] at plain
        exact .plain fun r => Option.some.inj (plain r)
    | succ f =>
        have outside : s.frames[f + 1]? = none := by
          rw [Array.getElem?_eq_none_iff, fresh.single]
          omega
        rw [binding?, outside] at bound
        cases bound
  queue q v member := by
    rw [fresh.noItems] at member
    cases member
  published name v found := by
    rw [unpublished] at found
    cases found

namespace Program

variable {made : List Closure} {s : Store}

theorem evaluate_from (known : s.From made) {forms : List Form} {after : Store}
    (evaluated : evaluate s forms = .ok after) : ∃ later, after.From later := by
  obtain ⟨later, _, known', _⟩ := Eval.program_yields 0 forms s known
  unfold evaluate at evaluated
  split at evaluated
  · next ran =>
      cases evaluated
      rw [ran] at known'
      exact ⟨later, known'⟩
  · cases evaluated

theorem collect_from (known : s.From made) {q : Nat} {loaded : Loaded} (collected : collect s q = .ok loaded) :
    loaded.store.From made ∧ ∀ e ∈ loaded.entries, e.thunk.From made := by
  have items : (s.queue q).map (Value.recast (.unknown made)) = s.queue q :=
    Value.allFrom_iff_map.mp (Value.allFrom_iff.mpr (known.queue q))
  have decoded := Entry.decode_all_recast (.unknown made) (s.queue q)
  rw [items] at decoded
  unfold collect at collected
  cases read : (s.queue q).mapM Entry.decode with
  | error fault =>
      rw [read] at collected
      cases collected
  | ok entries =>
      rw [read] at collected decoded
      cases collected
      refine ⟨known.drain q, fun e member => ?_⟩
      have fixed : entries.map (Entry.recast (.unknown made)) = entries := (Except.ok.inj decoded).symm
      have same := List.map_inj_left.mp (fixed.trans (List.map_id _).symm) e member
      exact Value.from_iff.mpr (congrArg Entry.thunk same)

theorem passed_texts {loaded : Loaded} (store : loaded.store.From made)
    (thunks : ∀ e ∈ loaded.entries, e.thunk.From made) :
    ∀ verdict ∈ (judge loaded).1, verdict.pass = true → verdict.actual = verdict.expected := by
  have among (e : Entry) (member : e ∈ Verdict.performed loaded.entries) : e.thunk.From made := by
    unfold Verdict.performed at member
    split at member
    · exact thunks e member
    · exact thunks e ((List.dropLast_sublist _).subset member)
  obtain ⟨later, _, ends⟩ := Verdict.applyAll_from among store
  exact Verdict.run_texts invoke loaded.entries loaded.store fun x isX y isY =>
    Verdict.functions_consistent (ends x isX) (ends y isY)

theorem load_from {text : String} {loaded : Loaded} (done : load text = .ok loaded) :
    ∃ made, loaded.store.From made ∧ ∀ e ∈ loaded.entries, e.thunk.From made := by
  obtain ⟨forms, _, done⟩ := exists_of_bind done
  obtain ⟨after, evaluated, collected⟩ := exists_of_bind done
  have fresh : ((Store.standard.addQueue).define 0 Harness.queueName (.queue 0)).Fresh :=
    (Store.standard_fresh _).addQueue.define Harness.queueName fun _ => rfl
  obtain ⟨made, known⟩ := evaluate_from (fresh.from_nil rfl rfl) evaluated
  exact ⟨made, collect_from known collected⟩

theorem loadModule_from {text path : String} {loaded : Loaded} (done : loadModule text path = .ok loaded) :
    ∃ made, loaded.store.From made ∧ ∀ e ∈ loaded.entries, e.thunk.From made := by
  obtain ⟨forms, _, done⟩ := exists_of_bind done
  obtain ⟨after, evaluated, found⟩ := exists_of_bind done
  obtain ⟨made, known⟩ := evaluate_from ((Store.standard_fresh _).from_nil rfl rfl) evaluated
  split at found
  · exact ⟨made, collect_from known found⟩
  · cases found

/-- A run of a program passes only examples that show what was expected. -/
theorem execute_texts {options : Options} {stamp path program : String} {verdicts : List Verdict}
    (executed : Runner.execute options stamp path program = .ok verdicts) :
    ∀ verdict ∈ verdicts, verdict.pass = true → verdict.actual = verdict.expected := by
  unfold Runner.execute at executed
  split at executed
  · obtain ⟨loaded, done, given⟩ := exists_of_bind executed
    cases given
    obtain ⟨made, store, thunks⟩ := loadModule_from done
    exact passed_texts store thunks
  · obtain ⟨loaded, done, given⟩ := exists_of_bind executed
    cases given
    obtain ⟨made, store, thunks⟩ := load_from done
    exact passed_texts store thunks

end Program

/-- Equal values have one text, when functions with one number have one name; all values of one run are such values.
So an example that passes shows what was expected, whatever the functions of the queue do. -/
theorem Verdict.passed_texts_equal :
    (∀ a b : Value, Closure.Consistent a.functions b.functions → a.same b = true → a.render = b.render) ∧
    (∀ (limit : Nat) (forms : List Form) (after : Store),
      ((Eval.program 0 forms).run.run (.standard limit)).2 = after →
        ∀ a b : Value, after.Holds a → after.Holds b → a.same b = true → a.render = b.render) ∧
    (∀ (σ : Type) (invoke : Value → StateM σ (Except Value Value)) (entries : List Entry) (s : σ),
      (∀ x ∈ ((applyAll invoke entries).run s).1, ∀ y ∈ ((applyAll invoke entries).run s).1,
        Closure.Consistent (functions x) (functions y)) →
      ∀ verdict ∈ ((run invoke [] entries).run s).1, verdict.pass = true → verdict.actual = verdict.expected) ∧
    (∀ (options : Options) (stamp path program : String) (verdicts : List Verdict),
      Runner.execute options stamp path program = .ok verdicts →
        ∀ verdict ∈ verdicts, verdict.pass = true → verdict.actual = verdict.expected) := by
  refine ⟨Value.render_of_same, ?_, fun _ => run_texts, fun _ _ _ _ _ => Program.execute_texts⟩
  intro limit forms after ran a b holdsA holdsB equal
  obtain ⟨made, _, known, _⟩ :=
    Eval.program_yields 0 forms (.standard limit) ((Store.standard_fresh limit).from_nil rfl rfl)
  rw [ran] at known
  exact Value.render_of_same a b ((known.of_holds holdsA).consistent (known.of_holds holdsB)) equal

/-- Zeros of both signs; an equal value and a raised error, whose message is asked for or not; a function that gives
itself. -/
theorem Verdict.passed_texts_equal_mixed :
    (Value.list [.number 0, .closure ⟨7, some "f", [], none, [], 0⟩]).render =
      (Value.list [.number (-0), .closure ⟨7, some "f", [], none, [], 0⟩]).render ∧
    (∃ (invoke : Value → StateM Unit (Except Value Value)) (entries : List Entry) (verdicts : List Verdict),
      ((run invoke [] entries).run ()).1 = verdicts ∧ verdicts.all (·.pass) = true ∧
      verdicts.map (·.actual) = ["\"a\"", "! E: m", "! E"] ∧
      ∀ verdict ∈ verdicts, verdict.actual = verdict.expected) ∧
    ∃ (program : String) (verdicts : List Verdict),
      Runner.execute ⟨none, "", .bare, false, false⟩ "" "" program = .ok verdicts ∧ verdicts.all (·.pass) = true ∧
      verdicts.map (·.actual) = ["<fn f>"] ∧ ∀ verdict ∈ verdicts, verdict.actual = verdict.expected := by
  obtain ⟨values, _, runs, executes⟩ := passed_texts_equal
  refine ⟨?_, ?_, ?_⟩
  · refine values _ _ ?_ (by decide)
    intro c first d second _
    rw [List.mem_singleton.mp first, List.mem_singleton.mp second]
  · let invoke (thunk : Value) : StateM Unit (Except Value Value) :=
      pure (if thunk.isTruthy then .ok thunk else .error (.error "E" "m"))
    let entries : List Entry :=
      [⟨false, .string "a", none, false⟩, ⟨true, .string "a", some 1, false⟩, ⟨false, .nil, none, false⟩,
        ⟨true, .error "E" "m", some 2, true⟩, ⟨false, .nil, none, false⟩, ⟨true, .error "E" "", some 3, true⟩]
    have passes : ((run invoke [] entries).run ()).1.all (·.pass) = true := by decide
    have bare : ((applyAll invoke entries).run ()).1.all (fun x => (functions x).isEmpty) = true := by decide
    refine ⟨invoke, entries, _, rfl, passes, by decide, fun verdict member => ?_⟩
    refine runs Unit invoke entries () (fun x isX y _ c inX => ?_) verdict member ?pass
    case pass => exact List.all_eq_true.mp passes verdict member
    rw [List.isEmpty_iff.mp (List.all_eq_true.mp bare x isX)] at inX
    cases inX
  · have ok {x : Except Fault (List Verdict)} {verdicts : List Verdict} (found : x.toOption = some verdicts) :
        x = .ok verdicts := by
      cases x with
      | error fault => cases found
      | ok given => exact congrArg Except.ok (Option.some.inj found)
    have done : Runner.execute ⟨none, "", .bare, false, false⟩ "" ""
        ("(define (f) f) (enqueue! __doctest \x7b:type :input :thunk f\x7d) " ++
          "(enqueue! __doctest \x7b:type :output :line 1 :thunk f\x7d)") = .ok [⟨true, "<fn f>", "<fn f>", 1⟩] :=
      ok (by decide +kernel)
    refine ⟨_, _, done, rfl, rfl, fun verdict member => executes _ _ _ _ _ done verdict member ?_⟩
    rw [List.mem_singleton.mp member]

end Exemplar
