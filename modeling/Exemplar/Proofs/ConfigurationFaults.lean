import Exemplar.CommandLine

/-!
# Faults in what was asked for

Which runs end with a fault in what was asked for is decided by the options and by the names of the files alone. A value
that an option does not have ends the run at once. A name that tells no dialect ends it when its turn comes: the files
before it have been run by then, and what they wrote and reported stays.
-/

namespace Exemplar

/-- Whatever goes wrong lies in a file and not in what was asked for. -/
def Fault.InFile {α : Type} (x : Except Fault α) : Prop := ∀ fault, x = .error fault → fault.isConfiguration = false

namespace Fault.InFile

variable {α β ε : Type}

theorem pure (a : α) : InFile (Pure.pure a) := by
  intro fault raised
  cases raised

theorem bind {x : Except Fault α} {next : α → Except Fault β} (first : InFile x) (later : ∀ a, InFile (next a)) :
    InFile (x >>= next) := by
  cases x with
  | ok a => exact later a
  | error fault =>
      intro other raised
      cases raised
      exact first fault rfl

theorem mapError {f : ε → Fault} (inFile : ∀ e, (f e).isConfiguration = false) (x : Except ε α) :
    InFile (x.mapError f) := by
  cases x with
  | ok a => exact pure a
  | error e =>
      intro fault raised
      cases raised
      exact inFile e

theorem mapM {f : α → Except Fault β} (each : ∀ a, InFile (f a)) (items : List α) : InFile (items.mapM f) := by
  induction items with
  | nil => exact pure []
  | cons item rest ih =>
      rw [List.mapM_cons]
      exact (each item).bind fun b => ih.bind fun bs => pure (b :: bs)

end Fault.InFile

open Fault

/-! ## Running a program -/

theorem Instrument.program_inFile (dialect : Dialect) (lead text : List Char) : InFile (program dialect lead text) := by
  cases dialect with
  | sxl => exact .mapError (fun _ => rfl) _
  | sx =>
      intro fault raised
      change plain lead (normalize text) = .error fault at raised
      unfold plain at raised
      dsimp only at raised
      split at raised
      · cases raised
      · split at raised
        · cases raised
        · cases raised
          rfl

namespace Program

theorem evaluate_inFile (s : Store) (forms : List Form) : InFile (evaluate s forms) := by
  intro fault raised
  unfold evaluate at raised
  split at raised
  · cases raised
  · cases raised
    rfl

theorem collect_inFile (s : Store) (q : Nat) : InFile (collect s q) :=
  (InFile.mapM (fun _ => .mapError (fun _ => rfl) _) _).bind fun _ => .pure _

theorem load_inFile (text : String) : InFile (load text) := by
  refine (InFile.mapError (fun _ => rfl) _).bind fun forms => ?_
  exact (evaluate_inFile _ forms).bind fun s => collect_inFile s 0

theorem loadModule_inFile (text path : String) : InFile (loadModule text path) := by
  refine (InFile.mapError (fun _ => rfl) _).bind fun forms => ?_
  refine (evaluate_inFile _ forms).bind fun s => ?_
  split
  · exact collect_inFile s _
  · intro fault raised
    cases raised
    rfl

end Program

namespace Runner

theorem execute_inFile (options : Options) (stamp : String) (path : Raw) (program : String) :
    InFile (execute options stamp path program) := by
  unfold execute
  dsimp only
  split
  · exact (Program.loadModule_inFile program _).bind fun _ => .pure _
  · exact (Program.load_inFile program).bind fun _ => .pure _

theorem runText_inFile (options : Options) (dialect : Dialect) (stamp : String) (path : Raw) (text : String) :
    InFile (runText options dialect stamp path text) := by
  refine (Instrument.program_inFile dialect _ _).bind fun program => ?_
  split
  · exact .pure _
  · exact (execute_inFile options stamp path _).bind fun _ => .pure _

end Runner

/-! ## Names of files -/

/-- Something holds of all items, or there is a first item of which it does not. -/
theorem forall_or_cut {α : Type} (holds : α → Bool) (items : List α) :
    (∀ item ∈ items, holds item = true) ∨
      ∃ before item after, items = before ++ item :: after ∧
        (∀ earlier ∈ before, holds earlier = true) ∧ holds item = false := by
  cases found : items.find? fun item => !holds item with
  | none => exact .inl (by simpa using List.find?_eq_none.mp found)
  | some item =>
      obtain ⟨fails, before, after, cut, earlier⟩ := List.find?_eq_some_iff_append.mp found
      exact .inr ⟨before, item, after, cut, fun other member => by simpa using earlier other member,
        by simpa using fails⟩

/-- Whether the dialect of the file at `path` is known. -/
def Options.knows (options : Options) (path : Raw) : Bool := (options.dialectOf path).isOk

namespace Options

variable {options : Options} {path : Raw}

theorem knows_iff : options.knows path = true ↔ ∃ dialect, options.dialectOf path = .ok dialect := by
  unfold knows
  cases options.dialectOf path with
  | ok dialect => exact iff_of_true rfl ⟨dialect, rfl⟩
  | error fault => exact iff_of_false (by simp [Except.isOk, Except.toBool]) fun ⟨_, found⟩ => by cases found

theorem dialectOf_unknown (unknown : options.knows path = false) :
    options.dialectOf path = .error .unknownDialect := by
  unfold knows dialectOf Dialect.infer at unknown
  unfold dialectOf Dialect.infer
  split
  · next given => simp [given, Except.isOk, Except.toBool] at unknown
  · next absent =>
      split
      · next found => simp [absent, found, Except.isOk, Except.toBool] at unknown
      · rfl

end Options

theorem Dialect.ofName_fault {name : String} {fault : Fault} (refused : ofName name = .error fault) :
    fault.isConfiguration = true := by
  unfold ofName at refused
  split at refused
  · cases refused
  · cases refused
    rfl

theorem Envelope.ofName_fault {name : String} {fault : Fault} (refused : ofName name = .error fault) :
    fault.isConfiguration = true := by
  unfold ofName at refused
  split at refused
  · cases refused
  · cases refused
    rfl

namespace Options

variable {options : Options}

/-- Names select an envelope and a dialect and leave the rest as it is, or they are refused. -/
theorem select_cases (options : Options) (envelope dialect : Option String) :
    (∃ e d, options.select envelope dialect = .ok { options with envelope := e, dialect := d }) ∨
      ∃ fault, options.select envelope dialect = .error fault ∧ fault.isConfiguration = true := by
  have byDialect (options : Options) :
      (∃ d, options.select none dialect = .ok { options with dialect := d }) ∨
        ∃ fault, options.select none dialect = .error fault ∧ fault.isConfiguration = true := by
    cases dialect with
    | none => exact .inl ⟨options.dialect, rfl⟩
    | some name =>
        cases named : Dialect.ofName name with
        | error fault => exact .inr ⟨fault, by simp only [select, named]; rfl, Dialect.ofName_fault named⟩
        | ok dialect => exact .inl ⟨some dialect, by simp only [select, named]; rfl⟩
  cases envelope with
  | none => exact (byDialect options).imp_left (Exists.intro options.envelope)
  | some name =>
      cases named : Envelope.ofName name with
      | error fault => exact .inr ⟨fault, by simp only [select, named]; rfl, Envelope.ofName_fault named⟩
      | ok envelope =>
          have later : options.select (some name) dialect = { options with envelope }.select none dialect := by
            simp only [select, named]
            rfl
          rw [later]
          exact (byDialect { options with envelope }).imp_left (Exists.intro envelope)

variable {envelope dialect : Option String}

theorem select_fault {fault : Fault} (refused : options.select envelope dialect = .error fault) :
    fault.isConfiguration = true := by
  rcases options.select_cases envelope dialect with ⟨e, d, selected⟩ | ⟨other, raised, configuration⟩
  · rw [selected] at refused
    cases refused
  · rw [raised] at refused
    cases refused
    exact configuration

theorem select_silent {chosen : Options} (selected : options.select envelope dialect = .ok chosen) :
    chosen.silent = options.silent := by
  rcases options.select_cases envelope dialect with ⟨e, d, found⟩ | ⟨fault, refused, -⟩
  · rw [found] at selected
    cases selected
    rfl
  · rw [refused] at selected
    cases selected

/-- The dialects of all files are known, or there is a first file whose dialect is not. -/
theorem known_or_cut (options : Options) (paths : List Raw) :
    (∀ path ∈ paths, options.knows path = true) ∨
      ∃ before path after, paths = before ++ path :: after ∧
        (∀ earlier ∈ before, options.knows earlier = true) ∧ options.knows path = false :=
  forall_or_cut options.knows paths

end Options

/-! ## Runs of files -/

namespace Files

theorem discover_inFile (files : Files) (root : Raw) : InFile (files.discover root) := by
  intro fault raised
  unfold discover at raised
  split at raised
  · cases raised
  · split at raised
    · cases raised
      rfl
    · cases raised

theorem expand_inFile (files : Files) (paths : List Raw) : InFile (files.expand paths) := by
  refine (InFile.mapM (fun path => ?_) paths).bind fun _ => .pure _
  unfold listing
  split
  · exact files.discover_inFile path
  · exact .pure _

end Files

namespace Runner

variable {files files' : Files} {options : Options} {stamp : String} {path : Raw}

theorem runFile_unknown (unknown : options.knows path = false) :
    runFile files options stamp path = ([], .error .unknownDialect) := by
  rw [runFile, Options.dialectOf_unknown unknown]

theorem runFile_inFile (known : options.knows path = true) : InFile (runFile files options stamp path).2 := by
  obtain ⟨dialect, found⟩ := Options.knows_iff.mp known
  rw [runFile, found]
  dsimp only
  split
  · intro fault raised
    cases raised
    rfl
  · exact runText_inFile options dialect stamp path _

/-- Of the files only the contents of the one that is run matter. -/
theorem runFile_congr (same : files'.read? path = files.read? path) :
    runFile files' options stamp path = runFile files options stamp path := by
  rw [runFile, runFile, same]

theorem told_eq_nil_iff (known : options.knows path = true) :
    (runFile files options stamp path).1 = [] ↔ options.announces = false := by
  obtain ⟨dialect, found⟩ := Options.knows_iff.mp known
  rw [runFile, found]
  cases options.announces <;> cases files.read? path <;> simp

end Runner

theorem Report.writeOutcome_ne_empty (outcome : Outcome) : writeOutcome outcome ≠ "" := by
  cases outcome <;> simp [writeOutcome, write, String.append_eq_empty_iff]

namespace CommandLine

variable {files files' : Files} {options : Options} {stamp : String} {path : Raw} {paths : List Raw} {start : Progress}

/-- Nothing has been written and no fault has been reported. -/
def Progress.Blank (progress : Progress) : Prop := progress.stdout = "" ∧ progress.faults = []

/-- Running a file leaves nothing to be seen: it is run in silence, and without a fault. -/
def Unseen (files : Files) (options : Options) (stamp : String) (path : Raw) : Prop :=
  options.silent = true ∧ (Runner.runFile files options stamp path).2.isOk = true

instance (files : Files) (options : Options) (stamp : String) (path : Raw) :
    Decidable (Unseen files options stamp path) := inferInstanceAs (Decidable (_ ∧ _))

theorem step_unknown (unknown : options.knows path = false) :
    start.step files options stamp path =
      .error { start with ok := false, faults := start.faults ++ [.unknownDialect] } := by
  simp [Progress.step, Runner.runFile_unknown unknown, isConfiguration]

/-- The file at a path with a known dialect is run, and the run goes on. -/
theorem step_known (known : options.knows path = true) :
    ∃ progress, start.step files options stamp path = .ok progress ∧
      (∀ fault ∈ progress.faults, fault ∈ start.faults ∨ fault.isConfiguration = false) ∧
      (progress.Blank ↔ start.Blank ∧ Unseen files options stamp path) := by
  have inFile := @Runner.runFile_inFile files options stamp path known
  have told := @Runner.told_eq_nil_iff files options stamp path known
  unfold Progress.step Unseen
  generalize Runner.runFile files options stamp path = ran at inFile told
  obtain ⟨lines, outcome⟩ := ran
  cases outcome with
  | error fault =>
      have notConfiguration := inFile fault rfl
      dsimp only
      rw [notConfiguration]
      refine ⟨_, rfl, fun other member => ?_, ?_⟩
      · rcases List.mem_append.mp member with old | new
        · exact .inl old
        · exact .inr (List.mem_singleton.mp new ▸ notConfiguration)
      · simp [Progress.Blank, Except.isOk, Except.toBool]
  | ok outcome =>
      refine ⟨_, rfl, fun other member => .inl member, ?_⟩
      cases silent : options.silent with
      | false => simp [Progress.Blank, Report.writeOutcome_ne_empty]
      | true =>
          have quiet : options.announces = false := by simp [Options.announces, silent]
          obtain rfl : lines = [] := told.mpr quiet
          simp [Progress.Blank, Except.isOk, Except.toBool]

/-- Files with known dialects are all run. -/
theorem steps_known (known : ∀ path ∈ paths, options.knows path = true) :
    ∃ progress, paths.foldlM (Progress.step files options stamp) start = .ok progress ∧
      (∀ fault ∈ progress.faults, fault ∈ start.faults ∨ fault.isConfiguration = false) ∧
      (progress.Blank ↔ start.Blank ∧ ∀ path ∈ paths, Unseen files options stamp path) := by
  induction paths generalizing start with
  | nil => exact ⟨start, rfl, fun fault member => .inl member, by simp⟩
  | cons path rest ih =>
      obtain ⟨here, later⟩ := List.forall_mem_cons.mp known
      obtain ⟨middle, first, faults, blank⟩ := @step_known files options stamp path start here
      obtain ⟨progress, ran, faults', blank'⟩ := @ih middle later
      refine ⟨progress, ?_, fun fault member => ?_, ?_⟩
      · rw [List.foldlM_cons, first]
        exact ran
      · rcases faults' fault member with old | inFile
        · exact faults fault old
        · exact .inr inFile
      · rw [blank', blank, List.forall_mem_cons, and_assoc]

theorem steps_unknown {before after : List Raw} {progress : Progress}
    (ran : before.foldlM (Progress.step files options stamp) start = .ok progress)
    (unknown : options.knows path = false) :
    (before ++ path :: after).foldlM (Progress.step files options stamp) start =
      .error { progress with ok := false, faults := progress.faults ++ [.unknownDialect] } := by
  rw [List.foldlM_append, ran]
  change (path :: after).foldlM (Progress.step files options stamp) progress = _
  rw [List.foldlM_cons, step_unknown unknown]
  rfl

theorem steps_congr (same : ∀ path ∈ paths, files'.read? path = files.read? path) :
    paths.foldlM (Progress.step files' options stamp) start =
      paths.foldlM (Progress.step files options stamp) start := by
  induction paths generalizing start with
  | nil => rfl
  | cons path rest ih =>
      obtain ⟨here, later⟩ := List.forall_mem_cons.mp same
      have first : start.step files' options stamp path = start.step files options stamp path := by
        rw [Progress.step, Progress.step, Runner.runFile_congr here]
      rw [List.foldlM_cons, List.foldlM_cons, first]
      exact congrArg _ (funext fun _ => ih later)

theorem runFiles_cut {before : List Raw} (known : ∀ earlier ∈ before, options.knows earlier = true)
    (unknown : options.knows path = false) (after : List Raw) :
    ∃ progress, runFiles files options stamp before = .ok progress ∧
      runFiles files options stamp (before ++ path :: after) =
        .error { progress with ok := false, faults := progress.faults ++ [.unknownDialect] } ∧
      (∀ fault ∈ progress.faults, fault.isConfiguration = false) ∧
      (progress.Blank ↔ ∀ earlier ∈ before, Unseen files options stamp earlier) := by
  obtain ⟨progress, ran, faults, blank⟩ := @steps_known files options stamp before {} known
  refine ⟨progress, ran, steps_unknown ran unknown, fun fault member => ?_, ?_⟩
  · exact (faults fault member).resolve_left (List.not_mem_nil)
  · rw [blank]
    exact and_iff_right ⟨rfl, rfl⟩

variable {arguments : Arguments}

theorem execute_refused {fault : Fault} (refused : arguments.options = .error fault) :
    execute files stamp arguments = ⟨1, "", [fault]⟩ := by
  rw [execute, refused]

theorem execute_lost {fault : Fault} (granted : arguments.options = .ok options)
    (lost : files.expand arguments.paths = .error fault) : execute files stamp arguments = ⟨1, "", [fault]⟩ := by
  rw [execute, granted]
  dsimp only
  rw [lost]

theorem execute_stopped {progress : Progress} (granted : arguments.options = .ok options)
    (expanded : files.expand arguments.paths = .ok paths)
    (stopped : runFiles files options stamp paths = .error progress) :
    execute files stamp arguments = ⟨1, progress.stdout, progress.faults⟩ := by
  rw [execute, granted]
  dsimp only
  rw [expanded]
  dsimp only
  rw [stopped]

theorem execute_finished {progress : Progress} (granted : arguments.options = .ok options)
    (expanded : files.expand arguments.paths = .ok paths) (ran : runFiles files options stamp paths = .ok progress) :
    execute files stamp arguments = progress.finish arguments.json := by
  rw [execute, granted]
  dsimp only
  rw [expanded]
  dsimp only
  rw [ran]

theorem finish_faults (progress : Progress) (json : Bool) :
    ∀ fault ∈ (progress.finish json).faults, fault ∈ progress.faults ∨ fault.isConfiguration = false := by
  have inFile : ∀ fault ∈ (closing json progress.outcomes.reverse).2, fault.isConfiguration = false := by
    unfold closing
    split
    · split <;> simp [isConfiguration]
    · simp
  intro fault member
  rcases List.mem_append.mp member with old | new
  · exact .inl old
  · exact .inr (inFile fault (Option.mem_toList.mp new))

theorem execute_configuration_iff (granted : arguments.options = .ok options)
    (expanded : files.expand arguments.paths = .ok paths) :
    (∃ fault ∈ (execute files stamp arguments).faults, fault.isConfiguration = true) ↔
      ∃ path ∈ paths, options.knows path = false := by
  rcases options.known_or_cut paths with known | ⟨before, path, after, rfl, known, unknown⟩
  · obtain ⟨progress, ran, faults, -⟩ := @steps_known files options stamp _ {} known
    rw [execute_finished granted expanded ran]
    refine iff_of_false ?_ fun ⟨path, member, unknown⟩ => by simp [known path member] at unknown
    rintro ⟨fault, member, configuration⟩
    have inFile : fault.isConfiguration = false :=
      (finish_faults progress _ fault member).elim (fun old => (faults fault old).resolve_left List.not_mem_nil) id
    rw [inFile] at configuration
    cases configuration
  · obtain ⟨progress, -, stopped, -⟩ := @runFiles_cut files options stamp path before known unknown after
    refine iff_of_true ⟨.unknownDialect, ?_, rfl⟩ ⟨path, by simp, unknown⟩
    rw [execute_stopped granted expanded stopped]
    simp

theorem run_accepted {given : List Raw} (accepted : Arguments.parse given = .ok arguments)
    (files : Files) (stamp : String) : run files stamp given = execute files stamp arguments := by
  rw [run, accepted]

/-- An accepted command line ends with a fault in what was asked for exactly when an option has a wrong value or a path
tells no dialect. A wrong value ends the run before anything is done, and so does a directory that cannot be listed,
with a fault of another kind. Otherwise the first path that tells no dialect ends it: the files before that path are
all run, no other file is read, and what they wrote and reported comes before the fault. So nothing else is seen
exactly when these files are run in silence and without a fault. -/
theorem run_configuration (files : Files) (stamp : String) {given : List Raw} {arguments : Arguments}
    (accepted : Arguments.parse given = .ok arguments) :
    (∀ fault, arguments.options = .error fault →
      fault.isConfiguration = true ∧ run files stamp given = ⟨1, "", [fault]⟩) ∧
    ∀ options, arguments.options = .ok options →
      (∀ fault, files.expand arguments.paths = .error fault →
        fault.isConfiguration = false ∧ run files stamp given = ⟨1, "", [fault]⟩) ∧
      ∀ paths, files.expand arguments.paths = .ok paths →
        ((∃ fault ∈ (run files stamp given).faults, fault.isConfiguration = true) ↔
          ∃ path ∈ paths, options.knows path = false) ∧
        ∀ before path after, paths = before ++ path :: after →
          (∀ earlier ∈ before, options.knows earlier = true) → options.knows path = false →
          ∃ progress, runFiles files options stamp before = .ok progress ∧
            run files stamp given = ⟨1, progress.stdout, progress.faults ++ [.unknownDialect]⟩ ∧
            (∀ fault ∈ progress.faults, fault.isConfiguration = false) ∧
            (progress.Blank ↔ ∀ earlier ∈ before, Unseen files options stamp earlier) ∧
            ∀ files' : Files, files'.expand arguments.paths = files.expand arguments.paths →
              (∀ earlier ∈ before, files'.read? earlier = files.read? earlier) →
              run files' stamp given = run files stamp given := by
  rw [run_accepted accepted]
  refine ⟨fun fault refused => ⟨Options.select_fault refused, execute_refused refused⟩, fun options granted => ?_⟩
  refine ⟨fun fault lost => ⟨files.expand_inFile _ fault lost, execute_lost granted lost⟩, fun paths expanded => ?_⟩
  refine ⟨execute_configuration_iff granted expanded, ?_⟩
  rintro before path after rfl known unknown
  obtain ⟨progress, ran, stopped, inFile, blank⟩ := @runFiles_cut files options stamp path before known unknown after
  refine ⟨progress, ran, execute_stopped granted expanded stopped, inFile, blank, fun files' sameNames sameTexts => ?_⟩
  have ran' : runFiles files' options stamp before = .ok progress := (steps_congr sameTexts).trans ran
  have stopped' : runFiles files' options stamp (before ++ path :: after) = .error _ := steps_unknown ran' unknown
  rw [run_accepted accepted, execute_stopped granted (sameNames.trans expanded) stopped',
    execute_stopped granted expanded stopped]

/-- In silence a file is run before the path that tells no dialect, and nothing of it is seen. The third path is not
looked at. -/
theorem run_configuration_silent :
    let files := Files.write { home := [] } "a.sx" "".toUTF8
    ∃ progress, runFiles files { silent := true } "0" ["a.sx"] = .ok progress ∧
      run files "0" ["-s", "a.sx", "notes.txt", "b.sx"] =
        ⟨1, progress.stdout, progress.faults ++ [.unknownDialect]⟩ ∧
      progress.Blank := by
  intro files
  have accepted : Arguments.parse ["-s", "a.sx", "notes.txt", "b.sx"] =
      .ok { paths := ["a.sx", "notes.txt", "b.sx"], silent := true } := rfl
  have expanded : files.expand ["a.sx", "notes.txt", "b.sx"] = .ok ["a.sx", "notes.txt", "b.sx"] := rfl
  obtain ⟨-, late⟩ := ((run_configuration files "0" accepted).2 { silent := true } rfl).2 _ expanded
  obtain ⟨progress, ran, result, -, blank, -⟩ :=
    late ["a.sx"] "notes.txt" ["b.sx"] rfl (by decide) (by decide)
  exact ⟨progress, ran, result, blank.mpr (by decide +kernel)⟩

/-- Two files are tried before the path that tells no dialect: the first is reported missing, the second is run. -/
theorem run_configuration_late :
    run (Files.write { home := [] } "a.sx" "".toUTF8) "0" ["gone.sx", "a.sx", "notes.txt"] =
      ⟨1, "retrieving gone.sx...\nretrieving a.sx...\nrunning doctests in a.sx...\n\n",
        [.unreadable "gone.sx", .unknownDialect]⟩ := by
  decide +kernel

end CommandLine

end Exemplar
