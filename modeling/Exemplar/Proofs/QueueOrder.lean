import Exemplar.Verdict

/-!
# The queue in order

Running a queue applies its functions one after another in the order of the queue, except for an input that nothing
follows. Every expected result is judged against the outcome of the input right before it.
-/

namespace Exemplar

namespace Entry

theorem line_isSome_of_ofValue {value : Value} {entry : Entry} (read : ofValue? value = .ok entry)
    (output : entry.isOutput = true) : entry.line.isSome = true := by
  unfold ofValue? at read
  cases isOutput : kind value with
  | error fault => simp [isOutput, bind, Except.bind] at read
  | ok isOutput' =>
      cases thunk : function value with
      | error fault => simp [isOutput, thunk, bind, Except.bind] at read
      | ok thunk' =>
          cases line : lineNumber value with
          | error fault => simp [isOutput, thunk, line, bind, Except.bind] at read
          | ok line' =>
              simp only [isOutput, thunk, line, bind, Except.bind] at read
              split at read
              · cases read
              · next complete =>
                  cases read
                  cases line' with
                  | some number => rfl
                  | none => exact absurd (by simpa using output) complete

theorem line_isSome_of_decode {values : List Value} {entries : List Entry}
    (decoded : values.mapM decode = .ok entries) :
    ∀ entry ∈ entries, entry.isOutput = true → entry.line.isSome = true := by
  induction values generalizing entries with
  | nil => cases decoded; simp
  | cons value rest ih =>
      rw [List.mapM_cons] at decoded
      cases first : decode value with
      | error fault => simp [first, bind, Except.bind] at decoded
      | ok entry =>
          cases later : rest.mapM decode with
          | error fault => simp [first, later, bind, Except.bind] at decoded
          | ok others =>
              simp only [first, later, bind, Except.bind] at decoded
              cases decoded
              intro other member output
              rcases List.mem_cons.mp member with rfl | old
              · unfold decode at first
                cases read : ofValue? value with
                | error fault => rw [read] at first; cases first
                | ok found =>
                    rw [read] at first
                    cases first
                    exact line_isSome_of_ofValue read output
              · exact ih later other old output

end Entry

namespace Verdict

/-- An entry with the outcome of its function. -/
abbrev Ran := Entry × Except Value Value

/-- The entries whose functions are applied: all but an input that nothing follows. -/
def performed (entries : List Entry) : List Entry :=
  if entries.getLast?.any (·.isOutput) then entries else entries.dropLast

/-- What an expected result is compared with: the outcome of the entry before it when that is an input, else `nil`. -/
def outcomeBefore : Option Ran → Except Value Value
  | some (entry, outcome) => if entry.isOutput then .ok .nil else outcome
  | none => .ok .nil

/-- The verdict on an entry behind another, when it is an expected result. -/
def ofRan? (before : Option Ran) (ran : Ran) : Option Verdict :=
  if ran.1.isOutput then some (judge (outcomeBefore before) ran.2 ran.1.negate (ran.1.line.getD 0)) else none

/-- The verdicts on entries, each taken together with the one before it. -/
def ofRans (before : Option Ran) (rans : List Ran) : List Verdict :=
  ((before :: rans.map some).zip rans).filterMap fun pair => ofRan? pair.1 pair.2

/-- The verdicts on a queue whose functions had the given outcomes. -/
def verdicts (entries : List Entry) (outcomes : List (Except Value Value)) : List Verdict :=
  ofRans none (entries.zip outcomes)

theorem ofRans_output (before : Option Ran) {entry : Entry} (output : entry.isOutput = true)
    (outcome : Except Value Value) (rest : List Ran) :
    ofRans before ((entry, outcome) :: rest) =
      judge (outcomeBefore before) outcome entry.negate (entry.line.getD 0) ::
        ofRans (some (entry, outcome)) rest := by
  have verdict : ofRan? before (entry, outcome) =
      some (judge (outcomeBefore before) outcome entry.negate (entry.line.getD 0)) := if_pos output
  rw [ofRans, List.map_cons, List.zip_cons_cons, List.filterMap_cons, verdict]
  rfl

theorem ofRans_input (before : Option Ran) {entry : Entry} (input : entry.isOutput = false)
    (outcome : Except Value Value) (rest : List Ran) :
    ofRans before ((entry, outcome) :: rest) = ofRans (some (entry, outcome)) rest := by
  have none : ofRan? before (entry, outcome) = none := if_neg (by simp [input])
  rw [ofRans, List.map_cons, List.zip_cons_cons, List.filterMap_cons, none]
  rfl

/-- An entry behind which nothing but `nil` is compared counts as none. -/
theorem ofRans_idle {before : Option Ran} (idle : outcomeBefore before = .ok .nil) (rans : List Ran) :
    ofRans before rans = ofRans none rans := by
  cases rans with
  | nil => rfl
  | cons ran rest =>
      obtain ⟨entry, outcome⟩ := ran
      cases kind : entry.isOutput with
      | true => rw [ofRans_output before kind, ofRans_output none kind, idle, outcomeBefore]
      | false => rw [ofRans_input before kind, ofRans_input none kind]

theorem verdicts_of_input (before : Ran) {entry : Entry} (input : entry.isOutput = false)
    (rest : List Entry) (outcomes : List (Except Value Value)) :
    ofRans (some before) ((entry :: rest).zip outcomes) = verdicts (entry :: rest) outcomes := by
  cases outcomes with
  | nil => rfl
  | cons outcome more =>
      rw [verdicts, List.zip_cons_cons, ofRans_input (some before) input, ofRans_input none input]

theorem performed_cons_cons (entry next : Entry) (rest : List Entry) :
    performed (entry :: next :: rest) = entry :: performed (next :: rest) := by
  unfold performed
  rw [List.getLast?_cons_cons, List.dropLast_cons_cons]
  split <;> rfl

theorem performed_output {entry : Entry} (output : entry.isOutput = true) (rest : List Entry) :
    performed (entry :: rest) = entry :: performed rest := by
  cases rest with
  | nil => simp [performed, output]
  | cons next more => exact performed_cons_cons entry next more

theorem performed_input {entry : Entry} (input : entry.isOutput = false) : performed [entry] = [] := by
  simp [performed, input]

section

theorem bind_run {σ α β : Type} (x : StateM σ α) (f : α → StateM σ β) (s : σ) :
    (x >>= f).run s = (f (x.run s).1).run (x.run s).2 := rfl

variable {σ : Type} (invoke : Value → StateM σ (Except Value Value))

theorem run_output {entry : Entry} (output : entry.isOutput = true) (buffer : List Value) (rest : List Entry) :
    run invoke buffer (entry :: rest) = (do
      let outcomes ← buffer.mapM invoke
      let expected ← invoke entry.thunk
      let verdicts ← run invoke [] rest
      return judge (outcomes.head?.getD (.ok .nil)) expected entry.negate (entry.line.getD 0) :: verdicts) := by
  simp [run, steps, step, output]

theorem run_input {entry : Entry} (input : entry.isOutput = false) (buffer : List Value) (rest : List Entry) :
    run invoke buffer (entry :: rest) = (do
      let _ ← buffer.mapM invoke
      run invoke [entry.thunk] rest) := by
  simp [run, steps, step, input]

/-- What waits is the input right before the rest of the queue. -/
theorem run_waiting {entry : Entry} (input : entry.isOutput = false) (rest : List Entry) :
    run invoke [] (entry :: rest) = run invoke [entry.thunk] rest := by
  rw [run_input invoke input, List.mapM_nil, pure_bind]

/-- However many functions waited, at most one does behind an entry. -/
theorem step_buffer (buffer : List Value) (entry : Entry) (s : σ) :
    ((step invoke buffer entry).run s).1.1.length ≤ 1 := by
  unfold step
  split
  · exact Nat.zero_le 1
  · exact Nat.le_refl 1

theorem steps_buffer {buffer : List Value} (few : buffer.length ≤ 1) (entries : List Entry) (s : σ) :
    ((steps invoke buffer entries).run s).1.1.length ≤ 1 := by
  induction entries generalizing buffer s with
  | nil => exact few
  | cons entry rest ih => exact ih (step_buffer invoke buffer entry s) _

/-- The functions one after another, in the order of the queue. -/
def applyAll (entries : List Entry) : StateM σ (List (Except Value Value)) :=
  (performed entries).mapM fun entry => invoke entry.thunk

theorem applyAll_cons_cons (entry next : Entry) (rest : List Entry) :
    applyAll invoke (entry :: next :: rest) = (do
      let outcome ← invoke entry.thunk
      let outcomes ← applyAll invoke (next :: rest)
      return outcome :: outcomes) := by
  rw [applyAll, performed_cons_cons, List.mapM_cons]
  rfl

theorem applyAll_output {entry : Entry} (output : entry.isOutput = true) (rest : List Entry) :
    applyAll invoke (entry :: rest) = (do
      let outcome ← invoke entry.thunk
      let outcomes ← applyAll invoke rest
      return outcome :: outcomes) := by
  rw [applyAll, performed_output output, List.mapM_cons]
  rfl

/-- Running the queue is applying its functions in order and judging their outcomes. -/
theorem run_eq_applyAll : (entries : List Entry) →
    run invoke [] entries = (do return verdicts entries (← applyAll invoke entries))
  | [] => rfl
  | entry :: rest => by
      cases kind : entry.isOutput with
      | true =>
          have idle (expected : Except Value Value) : outcomeBefore (some (entry, expected)) = .ok .nil := if_pos kind
          rw [run_output invoke kind, applyAll_output invoke kind, run_eq_applyAll rest]
          simp only [List.mapM_nil, List.head?_nil, Option.getD_none, bind_assoc, pure_bind, verdicts,
            List.zip_cons_cons, ofRans_output none kind, ofRans_idle (idle _), outcomeBefore]
      | false =>
          rw [run_waiting invoke kind]
          cases rest with
          | nil =>
              rw [applyAll, performed_input kind]
              rfl
          | cons next more =>
              rw [applyAll_cons_cons]
              cases kind' : next.isOutput with
              | false =>
                  -- Both are inputs: the first is run for what it changes, and the second waits.
                  have later := run_eq_applyAll (next :: more)
                  rw [run_waiting invoke kind'] at later
                  rw [run_input invoke kind', later]
                  simp only [List.mapM_cons, List.mapM_nil, bind_assoc, pure_bind, verdicts, List.zip_cons_cons,
                    ofRans_input none kind, verdicts_of_input _ kind']
              | true =>
                  -- The input is run for the expected result right behind it.
                  have idle (expected : Except Value Value) : outcomeBefore (some (next, expected)) = .ok .nil :=
                    if_pos kind'
                  have awaited (actual : Except Value Value) : outcomeBefore (some (entry, actual)) = actual :=
                    if_neg (by simp [kind])
                  rw [run_output invoke kind', applyAll_output invoke kind', run_eq_applyAll more]
                  simp only [List.mapM_cons, List.mapM_nil, List.head?_cons, Option.getD_some, bind_assoc, pure_bind,
                    verdicts, List.zip_cons_cons, ofRans_input none kind, ofRans_output _ kind', ofRans_idle (idle _),
                    awaited]

theorem run_lines (buffer : List Value) (entries : List Entry) (s : σ) :
    ((run invoke buffer entries).run s).1.map (·.line) =
      (entries.filter (·.isOutput)).map (·.line.getD 0) := by
  have judged (actual expected : Except Value Value) (negate : Bool) (line : Nat) :
      (judge actual expected negate line).line = line := by
    unfold judge
    split
    · rfl
    · split <;> rfl
  induction entries generalizing buffer s with
  | nil => rfl
  | cons entry rest ih =>
      cases kind : entry.isOutput with
      | true =>
          rw [run_output invoke kind, List.filter_cons_of_pos kind]
          rw [bind_run, bind_run, bind_run]
          change (judge _ _ _ _).line :: ((run invoke [] rest).run _).1.map _ = _
          rw [judged, ih]
          rfl
      | false =>
          rw [run_input invoke kind, List.filter_cons_of_neg (by simp [kind])]
          exact ih [entry.thunk] _

/-- What every call keeps is kept by running a queue. -/
theorem run_keeps {holds : σ → Prop} (keep : ∀ thunk s, holds s → holds ((invoke thunk).run s).2)
    (buffer : List Value) (entries : List Entry) {s : σ} (initially : holds s) :
    holds ((run invoke buffer entries).run s).2 := by
  have drained (buffer : List Value) (s : σ) (initially : holds s) : holds ((buffer.mapM invoke).run s).2 := by
    induction buffer generalizing s with
    | nil => exact initially
    | cons thunk rest ih =>
        rw [List.mapM_cons]
        exact ih _ (keep thunk s initially)
  induction entries generalizing buffer s with
  | nil => exact initially
  | cons entry rest ih =>
      have first := drained buffer s initially
      cases kind : entry.isOutput with
      | true =>
          rw [run_output invoke kind, bind_run, bind_run]
          exact ih [] (keep entry.thunk _ first)
      | false =>
          rw [run_input invoke kind, bind_run]
          exact ih [entry.thunk] first

/-- Calls functions by `invoke` and writes down which. -/
def recorded (thunk : Value) : StateM (List Value × σ) (Except Value Value) := fun (log, s) =>
  let (outcome, s) := (invoke thunk).run s
  (outcome, log ++ [thunk], s)

theorem recorded_run (thunk : Value) (log : List Value) (s : σ) :
    (recorded invoke thunk).run (log, s) =
      (((invoke thunk).run s).1, log ++ [thunk], ((invoke thunk).run s).2) := rfl

theorem mapM_recorded (entries : List Entry) (log : List Value) (s : σ) :
    (entries.mapM fun entry => recorded invoke entry.thunk).run (log, s) =
      (((entries.mapM fun entry => invoke entry.thunk).run s).1, log ++ entries.map (·.thunk),
        ((entries.mapM fun entry => invoke entry.thunk).run s).2) := by
  induction entries generalizing log s with
  | nil => rw [List.map_nil, List.append_nil]; rfl
  | cons entry rest ih =>
      have later := ih (log ++ [entry.thunk]) ((invoke entry.thunk).run s).2
      rw [List.append_assoc, List.singleton_append] at later
      rw [List.mapM_cons, List.mapM_cons, List.map_cons]
      simp only [bind_run, recorded_run, later]
      rfl

end

/-- A queue is run by applying its functions once each and in order, an input that nothing follows apart, whatever the
functions do: this gives the store behind the run, and the verdict on every expected result compares it with the outcome
of the input right before it. Behind every queue at most one function waits. -/
theorem run_sequential {σ : Type} (invoke : Value → StateM σ (Except Value Value)) (entries : List Entry) (s : σ)
    (log : List Value) :
    ∃ outcomes s', ((performed entries).mapM fun entry => invoke entry.thunk).run s = (outcomes, s') ∧
      (run invoke [] entries).run s = (verdicts entries outcomes, s') ∧
      (run (recorded invoke) [] entries).run (log, s) =
        (verdicts entries outcomes, log ++ (performed entries).map (·.thunk), s') ∧
      ((steps invoke [] entries).run s).1.1.length ≤ 1 ∧
      (verdicts entries outcomes).map (·.line) = (entries.filter (·.isOutput)).map (·.line.getD 0) ∧
      ∀ values : List Value, values.mapM Entry.decode = .ok entries →
        ∀ entry ∈ entries, entry.isOutput = true → entry.line.isSome = true := by
  have ran : (run invoke [] entries).run s =
      (verdicts entries ((applyAll invoke entries).run s).1, ((applyAll invoke entries).run s).2) := by
    rw [run_eq_applyAll]
    rfl
  have written : (run (recorded invoke) [] entries).run (log, s) =
      (verdicts entries ((applyAll (recorded invoke) entries).run (log, s)).1,
        ((applyAll (recorded invoke) entries).run (log, s)).2) := by
    rw [run_eq_applyAll]
    rfl
  rw [applyAll, mapM_recorded] at written
  have lines := run_lines invoke [] entries s
  rw [ran] at lines
  have few : ([] : List Value).length ≤ 1 := Nat.zero_le 1
  exact ⟨_, _, rfl, ran, written, steps_buffer invoke few entries s, lines,
    fun values decoded => Entry.line_isSome_of_decode decoded⟩

end Verdict

end Exemplar
