import Exemplar.Runner
import Exemplar.Proofs.InnerForms
import Exemplar.Proofs.ModuleText
import Exemplar.Proofs.QueueOrder

/-!
# Modules and programs run alike

A program in a scope of its own, whose queue is exported, comes to the same verdicts or the same fault as the program
itself with its queue bound beforehand.
-/

namespace Exemplar

namespace Store

/-- A store before a program, beside itself with an empty frame inside its own. -/
theorem Fresh.linked {s : Store} (fresh : s.Fresh) (queueName : s.binding? 0 Harness.queueName = some (.queue 0)) :
    Linked s (s.child 0 []) := by
  have single := fresh.single
  have above (f : Nat) : s.chain (f + 1) = [f + 1] := by simp [chain, single]
  have unbound (f : Nat) (name : String) : s.binding? (f + 1) name = none := by simp [binding?, single]
  refine ⟨by omega, size_child s 0 [], fun f => ?_, fun f name => ?_, fun name => ?_, ?_, fun q => ?_, rfl, rfl, rfl,
    rfl⟩
  · rw [chain_child, single]
    cases f with
    | zero => rw [if_pos rfl, fresh.outermost]; rfl
    | succ f => rw [if_neg (by omega), above, above]; rfl
  · rw [binding?_child, single, if_neg (by omega), unbound, unbound]
    exact ⟨rfl, rfl⟩
  · rw [binding?_child, binding?_child, single, if_pos rfl, if_neg (by omega)]
    exact ⟨(fresh.plain .inner name).symm, fresh.plain .sparing name⟩
  · rw [binding?_child, single, if_neg (by omega)]
    exact queueName
  · change Value.AllMoved (s.queue q) (s.queue q)
    rw [fresh.noItems]
    exact .nil

end Store

namespace Eval

theorem run_queueForm (room : Nat) {s : Store} (bound : s.lookup? 0 "doctest/queue" = some (.native .queue)) :
    (form (applyAt room) 0 Envelope.queueForm).run.run s =
      (.ok .nil, s.addQueue.define 0 Harness.queueName (.queue s.queues.size)) := by
  have called : applyAt room (.native .queue) [] = newQueue := by cases room <;> rfl
  have value : (form (applyAt room) 0 (.group .round [.atom (.symbol "doctest/queue")])).run.run s =
      (.ok (.queue s.queues.size), s.addQueue) := by
    have notSpecial : (Form.atom (.symbol "doctest/queue")).symbol?.bind Special.ofName? = none := by decide
    rw [form.eq_def]
    simp only [notSpecial]
    rw [run_bind, run_symbol _ bound]
    change (applyAt room (.native .queue) []).run.run s = _
    rw [called]
    rfl
  have defined : form (applyAt room) 0 Envelope.queueForm = (do
      let v ← form (applyAt room) 0 (.group .round [.atom (.symbol "doctest/queue")])
      modify (·.define 0 Harness.queueName v)
      return .nil) := by
    have special : (Form.atom (.symbol "define")).symbol?.bind Special.ofName? = some .define := by decide
    rw [Envelope.queueForm, form.eq_def]
    simp only [special]
    rfl
  rw [defined, run_bind, value]
  rfl

theorem run_exportForm (call : Caller) {s : Store} (bound : s.lookup? 0 Harness.queueName = some (.queue 0)) :
    (form call 0 Envelope.exportForm).run.run s = (.ok (.queue 0), s.publish Harness.queueName (.queue 0)) := by
  have special : (Form.atom (.symbol "export!")).symbol?.bind Special.ofName? = some .publish := by decide
  rw [Envelope.exportForm, form.eq_def]
  simp only [special]
  rw [run_bind]
  change (do
    let v ← form call 0 (.atom (.symbol Harness.queueName))
    modify (·.publish Harness.queueName v)
    return v : Eval Value).run.run s = _
  rw [run_bind, run_symbol call bound]
  rfl

theorem form_scopeForm (call : Caller) (forms : List Form) :
    form call 0 (Envelope.scopeForm forms) = (do
      let inner ← child 0 []
      body call inner .nil (forms ++ [.atom .nil])) := by
  have special : (Form.atom (.symbol "let")).symbol?.bind Special.ofName? = some .binding := by decide
  rw [Envelope.scopeForm, form.eq_def]
  simp only [special]
  rfl

theorem lookup_queueName {s t : Store} (linked : s.Linked t) : t.lookup? 0 Harness.queueName = some (.queue 0) := by
  rw [Store.lookup?, Store.chain, ← List.singleton_append, List.findSome?_append, List.findSome?_singleton,
    linked.queueName, Option.some_or]

/-- A program in a scope ends as the program does, and the queue is then exported if it ends well. -/
theorem scope_alike (room : Nat) {s : Store} (fresh : s.Fresh)
    (bound : s.binding? 0 Harness.queueName = some (.queue 0))
    {forms : List Form} (spares : Form.anyAssigns Harness.queueName forms = false) :
    ∃ t, Store.Linked ((body (applyAt room) 0 .nil forms).run.run s).2 t ∧
      (body (applyAt room) 0 .nil [Envelope.scopeForm forms, Envelope.exportForm]).run.run s =
        match ((body (applyAt room) 0 .nil forms).run.run s).1 with
        | .ok _ => (.ok (.queue 0), t.publish Harness.queueName (.queue 0))
        | .error raised => (.error (raised.recast .inner), t) := by
  obtain ⟨linked, agree⟩ := body_follows (fun x _ => form_follows (applyAt_follows room) x) spares 0
    (⟨rfl, rfl⟩ : Value.nil.Moved .nil) _ _ (fresh.linked bound)
  have opened : (child 0 []).run.run s = (.ok 1, s.child 0 []) := by
    rw [← fresh.single]
    rfl
  rw [body, run_bind, form_scopeForm, run_bind, opened]
  dsimp only
  rw [body_append, run_bind]
  generalize (body (applyAt room) 0 .nil forms).run.run s = outside at linked agree ⊢
  generalize (body (applyAt room) 1 .nil forms).run.run (s.child 0 []) = inside at linked agree ⊢
  obtain ⟨outcome, s'⟩ := outside
  obtain ⟨outcome', t⟩ := inside
  refine ⟨t, linked, ?_⟩
  cases agree with
  | error raised =>
      obtain rfl := raised.inner
      rfl
  | ok results =>
      change (body (applyAt room) 0 .nil [Envelope.exportForm]).run.run t = _
      rw [body, run_bind, run_exportForm _ (lookup_queueName linked)]
      rfl

theorem run_program (forms : List Form) (s : Store) :
    (program 0 forms).run.run s = (body (applyAt s.room) 0 .nil forms).run.run s := rfl

/-- A module ends as its program does. -/
theorem program_alike {s : Store} (fresh : s.Fresh) (native : s.lookup? 0 "doctest/queue" = some (.native .queue))
    (noQueues : s.queues = #[]) {forms : List Form} (spares : Form.anyAssigns Harness.queueName forms = false) :
    ∃ t, Store.Linked ((program 0 forms).run.run (s.addQueue.define 0 Harness.queueName (.queue 0))).2 t ∧
      (program 0 [Envelope.queueForm, Envelope.scopeForm forms, Envelope.exportForm]).run.run s =
        match ((program 0 forms).run.run (s.addQueue.define 0 Harness.queueName (.queue 0))).1 with
        | .ok _ => (.ok (.queue 0), t.publish Harness.queueName (.queue 0))
        | .error raised => (.error (raised.recast .inner), t) := by
  have room : (s.addQueue.define 0 Harness.queueName (.queue 0)).room = s.room := rfl
  have bound : (s.addQueue.define 0 Harness.queueName (.queue 0)).binding? 0 Harness.queueName = some (.queue 0) := by
    have single := fresh.addQueue.single
    rw [Store.binding?_define]
    exact if_pos ⟨rfl, by omega, rfl⟩
  rw [run_program, run_program, room, body, run_bind, run_queueForm _ native, noQueues]
  exact scope_alike s.room (fresh.addQueue.define Harness.queueName fun _ => rfl) bound spares

end Eval

namespace Entry

/-- The entry with the functions of its function's value recast. -/
def recast (r : Recast) (e : Entry) : Entry := { e with thunk := e.thunk.recast r }

variable (r : Recast)

theorem entry?_recast (name : String) (v : Value) :
    Value.entry? name (v.recast r) = ( v.entry? name).map (Value.recast r) := by
  cases v with
  | map entries =>
      rw [Value.recast, Value.recastEntries_eq]
      exact Keyed.find?_map (Value.recast r) (Key.keyword name) entries
  | _ => rfl

theorem kind_recast (v : Value) : kind (v.recast r) = kind v := by
  rw [kind, kind, entry?_recast]
  cases v.entry? "type" with
  | none => rfl
  | some found => cases found <;> rfl

theorem function_recast (v : Value) : function (v.recast r) = (function v).map (Value.recast r) := by
  rw [function, function, entry?_recast]
  cases v.entry? "thunk" with
  | none => rfl
  | some found =>
      simp only [Option.map_some, Value.isCallable_recast]
      split <;> rfl

theorem lineNumber_recast (v : Value) : lineNumber (v.recast r) = lineNumber v := by
  rw [lineNumber, lineNumber, entry?_recast]
  cases v.entry? "line" with
  | none => rfl
  | some found => cases found <;> rfl

theorem isNegated_recast (v : Value) : isNegated (v.recast r) = isNegated v := by
  rw [isNegated, isNegated, entry?_recast]
  cases v.entry? "negate" with
  | none => rfl
  | some found =>
      cases found with
      | bool b => cases b <;> rfl
      | _ => rfl

theorem decode_recast (v : Value) : decode (v.recast r) = (decode v).map (recast r) := by
  have fields : ofValue? (v.recast r) = (ofValue? v).map (recast r) := by
    rw [ofValue?, ofValue?, kind_recast, function_recast, lineNumber_recast, isNegated_recast]
    cases kind v with
    | error fault => rfl
    | ok isOutput =>
        cases function v with
        | error fault => rfl
        | ok thunk =>
            cases lineNumber v with
            | error fault => rfl
            | ok line =>
                simp only [bind, Except.bind, Except.map]
                split <;> rfl
  rw [decode, decode, fields, Value.render_recast]
  cases ofValue? v <;> rfl

theorem decode_all_recast (items : List Value) :
    (items.map (Value.recast r)).mapM decode = (items.mapM decode).map (List.map (recast r)) := by
  induction items with
  | nil => rfl
  | cons item rest ih =>
      rw [List.map_cons, List.mapM_cons, List.mapM_cons, decode_recast, ih]
      cases decode item with
      | error fault => rfl
      | ok first => cases rest.mapM decode <;> rfl

end Entry

namespace Verdict

theorem judge_recast (r : Recast) (actual expected : Except Value Value) (negate : Bool) (line : Nat) :
    judge (r.carry (Value.recast r) actual) (r.carry (Value.recast r) expected) negate line =
      judge actual expected negate line := by
  have shown (withMessage : Bool) (outcome : Except Value Value) :
      renderOutcome withMessage (r.carry (Value.recast r) outcome) = renderOutcome withMessage outcome := by
    cases outcome with
    | ok value => exact Value.render_recast r value
    | error raised => exact Value.renderRaised_recast r withMessage raised
  have raised (name message : String) :
      raises name message (r.carry (Value.recast r) actual) = raises name message actual := by
    cases actual with
    | ok value => rfl
    | error raised => cases raised <;> rfl
  cases expected with
  | error raised =>
      simp only [Recast.carry_error, judge, shown, Value.renderRaised_recast]
  | ok expected =>
      have error : expectedError (expected.recast r) = expectedError expected := by cases expected <;> rfl
      have given : gives (expected.recast r) (r.carry (Value.recast r) actual) = gives expected actual := by
        cases actual with
        | ok value => exact Value.same_recast r value expected
        | error raised => rfl
      simp only [Recast.carry_ok, judge, shown, raised, error, given, Value.render_recast]

theorem judge_agree {actual actual' expected expected' : Except Value Value} (acted : Agree Value.Moved actual actual')
    (awaited : Agree Value.Moved expected expected') (negate : Bool) (line : Nat) :
    judge actual' expected' negate line = judge actual expected negate line := by
  have carried {x y : Except Value Value} (agree : Agree Value.Moved x y) :
      y = Recast.inner.carry (Value.recast .inner) x := by
    cases agree with
    | ok results => exact congrArg Except.ok results.inner
    | error raised => exact congrArg Except.error raised.inner
  rw [carried acted, carried awaited]
  exact judge_recast .inner actual expected negate line

theorem invoke_alike {thunk thunk' : Value} (moved : thunk.Moved thunk') {s t : Store} (linked : Store.Linked s t) :
    Store.Linked ((Program.invoke thunk).run s).2 ((Program.invoke thunk').run t).2 ∧
      Agree Value.Moved ((Program.invoke thunk).run s).1 ((Program.invoke thunk').run t).1 :=
  Eval.apply_follows moved .nil s t linked

theorem drain_alike {buffer buffer' : List Value} (moved : Value.AllMoved buffer buffer') {s t : Store}
    (linked : Store.Linked s t) :
    Store.Linked ((buffer.mapM Program.invoke).run s).2 ((buffer'.mapM Program.invoke).run t).2 ∧
      Agree Value.Moved (((buffer.mapM Program.invoke).run s).1.head?.getD (.ok .nil))
        (((buffer'.mapM Program.invoke).run t).1.head?.getD (.ok .nil)) := by
  obtain ⟨inner, sparing⟩ := moved
  subst inner
  induction buffer generalizing s t with
  | nil => exact ⟨linked, .ok ⟨rfl, rfl⟩⟩
  | cons thunk rest ih =>
      obtain ⟨first, others⟩ := List.cons.inj sparing
      have here : thunk.Moved (thunk.recast .inner) := ⟨rfl, first⟩
      obtain ⟨invoked, agree⟩ := invoke_alike here linked
      rw [List.map_cons, List.mapM_cons, List.mapM_cons]
      exact ⟨(ih invoked others).1, agree⟩

theorem run_alike {entries : List Entry} (spared : entries.map (Entry.recast .sparing) = entries)
    {buffer buffer' : List Value} (moved : Value.AllMoved buffer buffer') {s t : Store} (linked : Store.Linked s t) :
    ((run Program.invoke buffer' (entries.map (Entry.recast .inner))).run t).1 =
      ((run Program.invoke buffer entries).run s).1 := by
  induction entries generalizing buffer buffer' s t with
  | nil => rfl
  | cons entry rest ih =>
      obtain ⟨first, others⟩ := List.cons.inj spared
      have thunks : entry.thunk.Moved (Entry.recast .inner entry).thunk := ⟨rfl, congrArg Entry.thunk first⟩
      obtain ⟨drained, acted⟩ := drain_alike moved linked
      rw [List.map_cons]
      cases output : entry.isOutput with
      | false =>
          have recast : (Entry.recast .inner entry).isOutput = false := output
          have waits : Value.AllMoved [entry.thunk] [(Entry.recast .inner entry).thunk] :=
            Moved.map (f := fun v => [v]) (fun _ _ => rfl) thunks
          rw [run_input _ output, run_input _ recast, bind_run, bind_run]
          exact ih others waits drained
      | true =>
          have recast : (Entry.recast .inner entry).isOutput = true := output
          obtain ⟨invoked, awaited⟩ := invoke_alike thunks drained
          have idle : Value.AllMoved [] [] := ⟨rfl, rfl⟩
          have verdicts := ih others idle invoked
          rw [run_output _ output, run_output _ recast, bind_run, bind_run, bind_run, bind_run]
          exact congrArg₂ List.cons (judge_agree acted awaited entry.negate (entry.line.getD 0)) verdicts

end Verdict

namespace Program

theorem collect_alike {s t : Store} (linked : Store.Linked s t) (q : Nat) :
    (collect t q).map (fun loaded => (judge loaded).1) = (collect s q).map (fun loaded => (judge loaded).1) := by
  have decoded : (t.queue q).mapM Entry.decode =
      ((s.queue q).mapM Entry.decode).map (List.map (Entry.recast .inner)) := by
    rw [(linked.queues q).inner, Entry.decode_all_recast]
  have spared : (s.queue q).mapM Entry.decode =
      ((s.queue q).mapM Entry.decode).map (List.map (Entry.recast .sparing)) := by
    rw [← Entry.decode_all_recast, (linked.queues q).sparing]
  rw [collect, collect, decoded]
  cases read : (s.queue q).mapM Entry.decode with
  | error fault => rfl
  | ok entries =>
      rw [read] at spared
      have kept : entries.map (Entry.recast .sparing) = entries := (Except.ok.inj spared).symm
      have idle : Value.AllMoved [] [] := ⟨rfl, rfl⟩
      exact congrArg Except.ok (Verdict.run_alike kept idle (linked.drain q))

theorem exports_publish (s : Store) (name : String) (v : Value) :
    Keyed.find? name (s.publish name v).exports = some v := by
  rw [Store.publish, Keyed.find?_insert, if_pos rfl]

/-- Loading the module of a program judges what loading the program does. -/
theorem loadModule_alike {text wrapped : String} {forms : List Form} (read : Form.read text = .ok forms)
    (readWrapped : Form.read wrapped = .ok [Envelope.queueForm, Envelope.scopeForm forms, Envelope.exportForm])
    (spares : Form.anyAssigns Harness.queueName forms = false) (path : String) :
    (loadModule wrapped path).map (fun loaded => (judge loaded).1) =
      (load text).map (fun loaded => (judge loaded).1) := by
  obtain ⟨t, linked, ran⟩ :=
    Eval.program_alike (Store.standard_fresh _) (Store.lookup_standard _ .queue) Store.standard_queues spares
  rw [loadModule, load, read, readWrapped]
  simp only [Except.mapError, bind, Except.bind, evaluate, ran]
  generalize (Eval.program 0 forms).run.run (Store.standard.addQueue.define 0 Harness.queueName (.queue 0)) =
    bare at linked
  obtain ⟨outcome, s⟩ := bare
  cases outcome with
  | error raised =>
      simp only [Value.renderRaised_recast, Except.map]
  | ok value =>
      have published : Store.Linked s (t.publish Harness.queueName (.queue 0)) := { linked with }
      simp only [exports_publish]
      exact collect_alike published 0

end Program

namespace Runner

/-- A program run as a module that exports its queue comes to what it comes to with its queue bound beforehand: the
same verdicts, or the same fault. -/
theorem execute_commonjs (options : Options) (stamp : String) (path : Raw) {text : List Char} {forms : List Form}
    (read : Form.read (String.ofList text) = .ok forms) (spares : Form.anyAssigns Harness.queueName forms = false) :
    execute { options with envelope := .commonjs } stamp path (String.ofList (Envelope.wrap .commonjs text)) =
      execute { options with envelope := .bare } stamp path (String.ofList text) := by
  have alike := Program.loadModule_alike read (Envelope.read_wrap read) spares (modulePath path stamp).shown
  generalize String.ofList (Envelope.wrap .commonjs text) = wrapped at alike
  generalize String.ofList text = bare at alike
  exact alike

/-- A program that shadows a function of the language by one that assigns a name nobody defined, and leaves it in the
queue. -/
theorem execute_commonjs_shadowing :
    execute { envelope := .commonjs } "7" "a.sx" (String.ofList (Envelope.wrap .commonjs
        "(define (not) (set! y nil))\n(enqueue! __doctest \x7b:type :output :thunk not\x7d)\n".toList)) =
      execute {} "7" "a.sx" (String.ofList
        "(define (not) (set! y nil))\n(enqueue! __doctest \x7b:type :output :thunk not\x7d)\n".toList) :=
  execute_commonjs {} "7" "a.sx" rfl rfl

end Runner

end Exemplar
