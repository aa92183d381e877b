import Exemplar.Proofs.ConfigurationFaults
import Exemplar.Proofs.JsonText

/-!
# What a run tells of every file

The files of a run are the paths that were asked for, with every directory replaced by its programs. Each file adds its
own part to the run: what is written about it, and its fault or its outcome. That part depends on nothing but the path
and the text of the file, so a file that fails leaves the parts of all others as they are.
-/

namespace Exemplar

/-! ## The files of a run -/

namespace Files

/-- The path has the extension `sx` or `sxl`. -/
def NamesProgram (path : Raw) : Prop :=
  Path.extension? path = some (Raw.ofText "sx") ∨ Path.extension? path = some (Raw.ofText "sxl")

instance (path : Raw) : Decidable (NamesProgram path) := inferInstanceAs (Decidable (_ ∨ _))

/-- Every directory at or below a place can be listed. -/
def Listable (files : Files) (directory : Place) : Prop := ∀ entry ∈ files.locked, ¬ directory <+: entry.1

/-- `found` holds the paths of the programs below the directory at `root`, sorted by their parts: those of all files
there that are named like a program, and of no others. -/
def Lists (files : Files) (root : Raw) (found : List Raw) : Prop :=
  ∃ (directory : Place) (names : List Place), files.resolve? root = some directory ∧ files.Listable directory ∧
    names.Perm ((files.below directory).filter fun name => NamesProgram (pathBelow root name)) ∧
    (∀ name, name ∈ names ↔
      name ≠ [] ∧ (∃ bytes, (directory ++ name, bytes) ∈ files.entries) ∧ NamesProgram (pathBelow root name)) ∧
    names.Pairwise (fun a b => ¬ b < a) ∧ found = names.map (pathBelow root)

/-- The second list is the first with every directory replaced by the programs below it. -/
inductive Expansion (files : Files) : List Raw → List Raw → Prop where
  | nil : Expansion files [] []
  | file {path : Raw} {rest found : List Raw} (noDirectory : files.isDirectory path = false)
      (later : Expansion files rest found) : Expansion files (path :: rest) (path :: found)
  | directory {path : Raw} {rest listed found : List Raw} (isDirectory : files.isDirectory path = true)
      (lists : files.Lists path listed) (later : Expansion files rest found) :
      Expansion files (path :: rest) (listed ++ found)

/-- The fault tells of a directory at or below one of the paths that cannot be listed. -/
def Obstructed (files : Files) (paths : List Raw) (fault : Fault) : Prop :=
  ∃ root ∈ paths, ∃ directory names reason, files.resolve? root = some directory ∧
    (directory ++ names, reason) ∈ files.locked ∧ fault = .unwalkable root.shown (pathBelow root names).shown reason

theorem isSource_eq (path : Raw) : Dialect.isSource path = decide (NamesProgram path) := by
  rw [Bool.eq_iff_iff, decide_eq_true_iff]
  unfold Dialect.isSource Dialect.infer NamesProgram
  generalize Path.extension? path = extension
  by_cases sx : extension = some (Raw.ofText "sx")
  · rw [sx]
    exact iff_of_true rfl (.inl rfl)
  · by_cases sxl : extension = some (Raw.ofText "sxl")
    · rw [sxl]
      exact iff_of_true rfl (.inr rfl)
    · simp [Dialect.all, Dialect.name, sx, sxl, Except.isOk, Except.toBool]

theorem below_eq_some_iff {directory place name : Place} :
    directory.below? place = some name ↔ place = directory ++ name ∧ name ≠ [] := by
  rw [Place.below?, Option.ite_none_right_eq_some, Bool.and_eq_true, List.isPrefixOf_iff_prefix, bne_iff_ne]
  constructor
  · rintro ⟨⟨⟨rest, rfl⟩, apart⟩, same⟩
    rw [List.drop_left, Option.some.injEq] at same
    subst same
    exact ⟨rfl, fun empty => apart (by rw [empty, List.append_nil])⟩
  · rintro ⟨rfl, nonempty⟩
    exact ⟨⟨List.prefix_append _ _, by simpa using nonempty⟩, by rw [List.drop_left]⟩

theorem mem_below {files : Files} {directory name : Place} :
    name ∈ files.below directory ↔ name ≠ [] ∧ ∃ bytes, (directory ++ name, bytes) ∈ files.entries := by
  rw [below, List.mem_filterMap]
  constructor
  · rintro ⟨⟨place, bytes⟩, member, isBelow⟩
    obtain ⟨rfl, nonempty⟩ := below_eq_some_iff.mp isBelow
    exact ⟨nonempty, bytes, member⟩
  · rintro ⟨nonempty, bytes, member⟩
    exact ⟨_, member, below_eq_some_iff.mpr ⟨rfl, nonempty⟩⟩

theorem pairwise_sorted (names : List Place) :
    (names.mergeSort fun a b => !(b < a)).Pairwise fun a b => ¬ b < a := by
  have trans (a b c : Place) (first : (!decide (b < a)) = true) (second : (!decide (c < b)) = true) :
      (!decide (c < a)) = true := by
    simp only [Bool.not_eq_true', decide_eq_false_iff_not] at first second ⊢
    exact List.le_trans first second
  have total (a b : Place) : (!decide (b < a) || !decide (a < b)) = true := by
    simp only [Bool.or_eq_true, Bool.not_eq_true', decide_eq_false_iff_not]
    exact List.le_total a b
  exact (List.pairwise_mergeSort trans total names).imp fun ordered => by simpa using ordered

theorem obstacle_eq_none {files : Files} {directory : Place} :
    files.obstacle? directory = none ↔ files.Listable directory := by
  simp only [obstacle?, List.findSome?_eq_none_iff, Listable]
  refine forall_congr' fun entry => imp_congr_right fun _ => ?_
  rw [← List.isPrefixOf_iff_prefix]
  cases List.isPrefixOf directory entry.1 <;> simp

theorem obstacle_eq_some {files : Files} {directory names : Place} {reason : String}
    (found : files.obstacle? directory = some (names, reason)) : (directory ++ names, reason) ∈ files.locked := by
  obtain ⟨⟨place, why⟩, member, named⟩ := List.exists_of_findSome?_eq_some found
  dsimp only at named
  split at named
  · next below =>
      obtain ⟨rest, rfl⟩ := List.isPrefixOf_iff_prefix.mp below
      rw [List.drop_left] at named
      cases named
      exact member
  · cases named

theorem resolve_of_isDirectory {files : Files} {root : Raw} (isDirectory : files.isDirectory root = true) :
    ∃ directory, files.resolve? root = some directory := by
  cases found : files.resolve? root with
  | none => simp [Files.isDirectory, found] at isDirectory
  | some directory => exact ⟨directory, rfl⟩

theorem discover_lists {files : Files} {root : Raw} {listed : List Raw} (isDirectory : files.isDirectory root = true)
    (discovered : files.discover root = .ok listed) : files.Lists root listed := by
  obtain ⟨directory, found⟩ := resolve_of_isDirectory isDirectory
  let names := (files.below directory).mergeSort fun a b => !(b < a)
  rw [discover, found] at discovered
  cases clear : files.obstacle? directory with
  | some obstacle => simp [clear] at discovered
  | none =>
      simp only [clear] at discovered
      have programs : Dialect.isSource = fun path => decide (NamesProgram path) := funext isSource_eq
      refine ⟨directory, names.filter fun name => NamesProgram (pathBelow root name), found, obstacle_eq_none.mp clear,
        (List.mergeSort_perm _ _).filter _, fun name => ?_, (pairwise_sorted _).filter _, ?_⟩
      · rw [List.mem_filter, List.mem_mergeSort, mem_below, decide_eq_true_iff, and_assoc]
      · rw [← Except.ok.inj discovered, programs, List.filter_map, Function.comp_def]

variable {files : Files} {path : Raw} {rest found : List Raw} {fault : Fault}

theorem expand_cons_ok :
    files.expand (path :: rest) = .ok found ↔
      ∃ here later, files.listing path = .ok here ∧ files.expand rest = .ok later ∧ here ++ later = found := by
  simp only [expand, List.mapM_cons]
  cases files.listing path with
  | error fault => simp [bind, Except.bind]
  | ok here => cases rest.mapM files.listing <;> simp [bind, Except.bind, pure, Except.pure]

theorem expand_cons_error :
    files.expand (path :: rest) = .error fault ↔
      files.listing path = .error fault ∨
        (∃ here, files.listing path = .ok here) ∧ files.expand rest = .error fault := by
  simp only [expand, List.mapM_cons]
  cases files.listing path with
  | error fault => simp [bind, Except.bind]
  | ok here => cases rest.mapM files.listing <;> simp [bind, Except.bind, pure, Except.pure]

theorem expand_expansion {paths : List Raw} (expanded : files.expand paths = .ok found) :
    files.Expansion paths found := by
  induction paths generalizing found with
  | nil =>
      cases expanded
      exact .nil
  | cons path rest ih =>
      obtain ⟨here, others, listed, later, rfl⟩ := expand_cons_ok.mp expanded
      unfold listing at listed
      split at listed
      · next isDirectory => exact .directory isDirectory (discover_lists isDirectory listed) (ih later)
      · next noDirectory =>
          cases listed
          exact .file (Bool.eq_false_iff.mpr noDirectory) (ih later)

theorem discover_obstructed (isDirectory : files.isDirectory path = true) (lost : files.discover path = .error fault) :
    ∃ directory names reason, files.resolve? path = some directory ∧ (directory ++ names, reason) ∈ files.locked ∧
      fault = .unwalkable path.shown (pathBelow path names).shown reason := by
  obtain ⟨directory, found⟩ := resolve_of_isDirectory isDirectory
  rw [discover, found] at lost
  cases blocked : files.obstacle? directory with
  | none => simp [blocked] at lost
  | some obstacle =>
      obtain ⟨names, reason⟩ := obstacle
      simp only [blocked] at lost
      exact ⟨directory, names, reason, found, obstacle_eq_some blocked, (Except.error.inj lost).symm⟩

theorem expand_obstructed {paths : List Raw} (lost : files.expand paths = .error fault) :
    files.Obstructed paths fault := by
  induction paths with
  | nil => cases lost
  | cons path rest ih =>
      rcases expand_cons_error.mp lost with here | ⟨-, later⟩
      · unfold listing at here
        split at here
        · next isDirectory => exact ⟨path, List.mem_cons_self, discover_obstructed isDirectory here⟩
        · cases here
      · obtain ⟨root, member, obstacle⟩ := ih later
        exact ⟨root, List.mem_cons_of_mem _ member, obstacle⟩

end Files

/-! ## Reports -/

namespace Report

/-- The items of a report on files with outcomes, in order: the path, what kind of outcome it is, and the outcome. -/
inductive Tells : List (Raw × Outcome) → List Json → Prop where
  | nil : Tells [] []
  | source {path : Raw} {name text : String} {rest : List (Raw × Outcome)} {items : List Json}
      (named : path.text? = some name) (later : Tells rest items) :
      Tells ((path, .source text) :: rest)
        (.object [("path", .string name), ("mode", .string "source"), ("output", .string text)] :: items)
  | results {path : Raw} {name : String} {verdicts : List Verdict} {rest : List (Raw × Outcome)} {items : List Json}
      (named : path.text? = some name) (later : Tells rest items) :
      Tells ((path, .verdicts verdicts) :: rest)
        (.object [("path", .string name), ("mode", .string "results"),
          ("output", .array (verdicts.map fun v => .object [("pass", .bool v.pass), ("actual", .string v.actual),
            ("expected", .string v.expected), ("line", .nat v.line)]))] :: items)

variable {outcomes before after : List (Raw × Outcome)} {path : Raw} {outcome : Outcome}

theorem exists_tells (named : ∀ entry ∈ outcomes, entry.1.text?.isSome = true) :
    ∃ items, outcomes.map (fun entry => entry.1.text?.map (fileJson · entry.2)) = items.map some ∧
      Tells outcomes items := by
  induction outcomes with
  | nil => exact ⟨[], rfl, .nil⟩
  | cons entry rest ih =>
      obtain ⟨here, later⟩ := List.forall_mem_cons.mp named
      obtain ⟨items, made, tells⟩ := ih later
      obtain ⟨path, outcome⟩ := entry
      obtain ⟨name, isName⟩ := Option.isSome_iff_exists.mp here
      refine ⟨fileJson name outcome :: items, ?_, ?_⟩
      · rw [List.map_cons, isName, made]
        rfl
      · cases outcome with
        | source text => exact .source isName tells
        | verdicts verdicts => exact .results isName tells

theorem mapM_id_some (items : List Json) : (items.map some).mapM id = some items := by
  induction items with
  | nil => rfl
  | cons item rest ih => simp [ih]

theorem json_ok (named : ∀ entry ∈ outcomes, entry.1.text?.isSome = true) :
    ∃ items, json outcomes = .ok ((Json.array items).render 0 ++ "\n") ∧ Tells outcomes items := by
  obtain ⟨items, made, tells⟩ := exists_tells named
  refine ⟨items, ?_, tells⟩
  unfold json
  dsimp only
  rw [made, mapM_id_some]

/-- A report ends where the first path that is no text would stand. -/
theorem json_torn (named : ∀ entry ∈ before, entry.1.text?.isSome = true) (nameless : path.text? = none) :
    ∃ items, Tells before items ∧ json (before ++ (path, outcome) :: after) =
      .error (Json.renderOpen items ++
        ('{'.toString ++ (Json.lineBreak 2 ++ (Json.quote "path" ++ ": ")))) := by
  obtain ⟨items, made, tells⟩ := exists_tells named
  refine ⟨items, tells, ?_⟩
  have torn (rest : List (Option Json)) : (items.map some ++ none :: rest).mapM id = none ∧
      ((items.map some ++ none :: rest).takeWhile (·.isSome)).filterMap id = items := by
    constructor
    · rw [List.mapM_append, mapM_id_some]
      rfl
    · rw [List.takeWhile_append_of_pos (by simp)]
      simp
  unfold json
  dsimp only
  rw [List.map_append, made, List.map_cons, nameless, Option.map_none, (torn _).1, (torn _).2]

end Report

/-! ## The part of one file -/

namespace CommandLine

def written (files : Files) (options : Options) (stamp : String) (path : Raw) : String :=
  let (told, result) := Runner.runFile files options stamp path
  let shown :=
    match result with
    | .ok outcome => if options.silent then "" else Report.writeOutcome outcome
    | .error _ => ""
  String.join (told.map (· ++ "\n")) ++ shown

def fault? (files : Files) (options : Options) (stamp : String) (path : Raw) : Option Fault :=
  match (Runner.runFile files options stamp path).2 with
  | .ok _ => none
  | .error fault => some fault

def outcome? (files : Files) (options : Options) (stamp : String) (path : Raw) : Option Outcome :=
  (Runner.runFile files options stamp path).2.toOption

/-- The files that have an outcome, in order. -/
def produced (files : Files) (options : Options) (stamp : String) (paths : List Raw) : List (Raw × Outcome) :=
  paths.filterMap fun path => (outcome? files options stamp path).map (path, ·)

/-- The parts of files put together, in order. -/
def Progress.total (files : Files) (options : Options) (stamp : String) (paths : List Raw) : Progress where
  ok := paths.all fun path => (outcome? files options stamp path).any (·.passed)
  stdout := String.join (paths.map (written files options stamp))
  faults := paths.filterMap (fault? files options stamp)
  outcomes := (produced files options stamp paths).reverse

variable {files files' : Files} {options : Options} {stamp : String} {path : Raw} {paths before after : List Raw}

theorem step_total (known : options.knows path = true) (before : List Raw) :
    (Progress.total files options stamp before).step files options stamp path =
      .ok (Progress.total files options stamp (before ++ [path])) := by
  have inFile := @Runner.runFile_inFile files options stamp path known
  simp only [Progress.step, Progress.total, produced, List.all_append, List.map_append, List.filterMap_append,
    List.reverse_append, String.join_append, List.all_cons, List.all_nil, Bool.and_true, List.map_cons, List.map_nil,
    String.join_cons, String.join_nil, String.append_empty, List.filterMap_cons, List.filterMap_nil]
  unfold written fault? outcome?
  generalize Runner.runFile files options stamp path = ran at inFile
  obtain ⟨told, result⟩ := ran
  cases result with
  | ok outcome => cases options.silent <;> simp [Except.toOption, String.append_assoc]
  | error fault => simp [Except.toOption, inFile fault rfl]

/-- Running files puts their parts together. -/
theorem steps_total (known : ∀ path ∈ paths, options.knows path = true) (before : List Raw) :
    paths.foldlM (Progress.step files options stamp) (Progress.total files options stamp before) =
      .ok (Progress.total files options stamp (before ++ paths)) := by
  induction paths generalizing before with
  | nil => rw [List.append_nil]; rfl
  | cons path rest ih =>
      obtain ⟨here, later⟩ := List.forall_mem_cons.mp known
      rw [List.foldlM_cons, step_total here]
      change rest.foldlM _ (Progress.total files options stamp (before ++ [path])) = _
      rw [ih later, List.append_assoc, List.singleton_append]

theorem runFiles_total (known : ∀ path ∈ paths, options.knows path = true) :
    runFiles files options stamp paths = .ok (Progress.total files options stamp paths) :=
  steps_total known []

theorem total_append (before after : List Raw) :
    (Progress.total files options stamp (before ++ after)).stdout =
        (Progress.total files options stamp before).stdout ++ (Progress.total files options stamp after).stdout ∧
      (Progress.total files options stamp (before ++ after)).faults =
        (Progress.total files options stamp before).faults ++ (Progress.total files options stamp after).faults := by
  simp [Progress.total, String.join_append]

/-- The parts of files depend on nothing but their own texts. -/
theorem total_congr (known : ∀ path ∈ paths, options.knows path = true)
    (same : ∀ path ∈ paths, files'.read? path = files.read? path) :
    Progress.total files' options stamp paths = Progress.total files options stamp paths := by
  have ran : runFiles files' options stamp paths = runFiles files options stamp paths := steps_congr same
  rw [runFiles_total known, runFiles_total known] at ran
  exact Except.ok.inj ran

/-- A file that fails adds what was told of it and its fault, and no outcome. -/
theorem total_failed {told : List String} {fault : Fault}
    (ran : Runner.runFile files options stamp path = (told, .error fault)) (before rest : List Raw) :
    (Progress.total files options stamp (before ++ path :: rest)).stdout =
        (Progress.total files options stamp before).stdout ++ (String.join (told.map (· ++ "\n")) ++
          (Progress.total files options stamp rest).stdout) ∧
      (Progress.total files options stamp (before ++ path :: rest)).faults =
        (Progress.total files options stamp before).faults ++
          fault :: (Progress.total files options stamp rest).faults ∧
      (Progress.total files options stamp (before ++ path :: rest)).outcomes =
        (Progress.total files options stamp (before ++ rest)).outcomes := by
  simp [Progress.total, produced, written, fault?, outcome?, ran, Except.toOption, String.join_append]

/-! ## Whole runs -/

theorem known_of_ran (ran : (Runner.runFile files options stamp path).2 ≠ .error .unknownDialect) :
    options.knows path = true := by
  cases known : options.knows path with
  | true => rfl
  | false =>
      rw [Runner.runFile_unknown known] at ran
      exact absurd rfl ran

theorem closing_clear {json : Bool} {outcomes : List (Raw × Outcome)} :
    (closing json outcomes).2 = none ↔ (json = true → ∀ entry ∈ outcomes, entry.1.text?.isSome = true) := by
  cases json with
  | false => exact iff_of_true rfl (by simp)
  | true =>
      rw [closing, if_pos rfl]
      rcases forall_or_cut (fun entry : Raw × Outcome => entry.1.text?.isSome) outcomes with
        named | ⟨before, entry, after, rfl, named, nameless⟩
      · obtain ⟨items, written, -⟩ := Report.json_ok named
        rw [written]
        exact iff_of_true rfl fun _ => named
      · obtain ⟨path, outcome⟩ := entry
        have noText : path.text? = none := by simpa using nameless
        obtain ⟨items, -, torn⟩ := @Report.json_torn before after path outcome named noText
        rw [torn]
        refine iff_of_false (by simp) fun all => ?_
        have isText := all rfl (path, outcome) (by simp)
        rw [nameless] at isText
        cases isText

variable {arguments : Arguments}

theorem execute_known (granted : arguments.options = .ok options)
    (expanded : files.expand arguments.paths = .ok paths) (known : ∀ path ∈ paths, options.knows path = true) :
    execute files stamp arguments = (Progress.total files options stamp paths).finish arguments.json :=
  execute_finished granted expanded (runFiles_total known)

/-- A run that ends at a path that tells no dialect. -/
theorem execute_cut (granted : arguments.options = .ok options)
    (expanded : files.expand arguments.paths = .ok (before ++ path :: after))
    (known : ∀ earlier ∈ before, options.knows earlier = true) (unknown : options.knows path = false) :
    execute files stamp arguments =
      ⟨1, (Progress.total files options stamp before).stdout,
        (Progress.total files options stamp before).faults ++ [.unknownDialect]⟩ := by
  have stopped : runFiles files options stamp (before ++ path :: after) = .error _ :=
    steps_unknown (runFiles_total known) unknown
  exact execute_stopped granted expanded stopped

theorem finish_exit {progress : Progress} {json : Bool} :
    (progress.finish json).exit = 0 ↔
      progress.ok = true ∧ (json = true → ∀ entry ∈ progress.outcomes.reverse, entry.1.text?.isSome = true) := by
  rw [← closing_clear]
  simp only [Progress.finish]
  cases progress.ok <;> cases (closing json progress.outcomes.reverse).2 <;> simp

theorem passed_iff (outcome : Outcome) :
    outcome.passed = true ↔ ∀ verdicts, outcome = .verdicts verdicts → ∀ verdict ∈ verdicts, verdict.pass = true := by
  cases outcome with
  | source text => simp [Outcome.passed, Outcome.verdictList]
  | verdicts verdicts => simp [Outcome.passed, Outcome.verdictList]

theorem total_ok :
    (Progress.total files options stamp paths).ok = true ↔
      ∀ path ∈ paths, ∃ outcome, (Runner.runFile files options stamp path).2 = .ok outcome ∧
        ∀ verdicts, outcome = .verdicts verdicts → ∀ verdict ∈ verdicts, verdict.pass = true := by
  refine List.all_eq_true.trans (forall_congr' fun path => imp_congr_right fun _ => ?_)
  unfold outcome?
  cases (Runner.runFile files options stamp path).2 with
  | error fault => simp [Except.toOption]
  | ok outcome => simp [Except.toOption, passed_iff]

/-- When every file has an outcome, the report tells of every path. -/
theorem named_iff (all : ∀ path ∈ paths, ∃ outcome, (Runner.runFile files options stamp path).2 = .ok outcome) :
    (∀ entry ∈ produced files options stamp paths, entry.1.text?.isSome = true) ↔
      ∀ path ∈ paths, path.text?.isSome = true := by
  constructor
  · intro named path member
    obtain ⟨outcome, ran⟩ := all path member
    refine named (path, outcome) (List.mem_filterMap.mpr ⟨path, member, ?_⟩)
    rw [outcome?, ran]
    rfl
  · intro named entry member
    obtain ⟨path, isPath, made⟩ := List.mem_filterMap.mp member
    obtain ⟨outcome, -, rfl⟩ := Option.map_eq_some_iff.mp made
    exact named path isPath

theorem execute_exit_iff :
    (execute files stamp arguments).exit = 0 ↔
      ∃ options paths, arguments.options = .ok options ∧ files.expand arguments.paths = .ok paths ∧
        (∀ path ∈ paths, ∃ outcome, (Runner.runFile files options stamp path).2 = .ok outcome ∧
          ∀ verdicts, outcome = .verdicts verdicts → ∀ verdict ∈ verdicts, verdict.pass = true) ∧
        (arguments.json = true → ∀ path ∈ paths, path.text?.isSome = true) := by
  cases granted : arguments.options with
  | error fault => simp [execute_refused granted]
  | ok options =>
      cases expanded : files.expand arguments.paths with
      | error fault => simp [execute_lost granted expanded]
      | ok paths =>
          simp only [Except.ok.injEq, exists_and_left, exists_eq_left']
          rcases options.known_or_cut paths with known | ⟨before, path, after, rfl, known, unknown⟩
          · rw [execute_known granted expanded known, finish_exit, total_ok]
            refine and_congr_right fun all => imp_congr_right fun _ => ?_
            rw [Progress.total, List.reverse_reverse]
            exact named_iff fun path member => (all path member).imp fun _ ran => ran.1
          · rw [execute_cut granted expanded known unknown]
            refine iff_of_false Nat.one_ne_zero fun success => ?_
            obtain ⟨outcome, ran, -⟩ := success.1 path (by simp)
            have known : options.knows path = true := known_of_ran (by rw [ran]; simp)
            rw [unknown] at known
            cases known

/-- A file that fails adds its own lines and its fault. Nothing else changes if it is left out. -/
theorem execute_failed {told : List String} {fault : Fault} (granted : arguments.options = .ok options)
    (expanded : files.expand arguments.paths = .ok (before ++ path :: after))
    (known : ∀ earlier ∈ before, options.knows earlier = true)
    (ran : Runner.runFile files options stamp path = (told, .error fault)) (inFile : fault.isConfiguration = false) :
    ∃ text faults, (execute files stamp arguments).stdout =
        (Progress.total files options stamp before).stdout ++ (String.join (told.map (· ++ "\n")) ++ text) ∧
      (execute files stamp arguments).faults =
        (Progress.total files options stamp before).faults ++ fault :: faults ∧
      ∀ (files' : Files) (arguments' : Arguments), arguments'.options = .ok options →
        arguments'.json = arguments.json → files'.expand arguments'.paths = .ok (before ++ after) →
        (∀ other ∈ before ++ after, files'.read? other = files.read? other) →
        (execute files' stamp arguments').stdout = (Progress.total files options stamp before).stdout ++ text ∧
          (execute files' stamp arguments').faults = (Progress.total files options stamp before).faults ++ faults := by
  have noUnknown : (Runner.runFile files options stamp path).2 ≠ .error .unknownDialect := by
    rw [ran]
    rintro ⟨⟩
    cases inFile
  have here : options.knows path = true := known_of_ran noUnknown
  have knownAll {rest : List Raw} (later : ∀ other ∈ rest, options.knows other = true) :
      (∀ other ∈ before ++ path :: rest, options.knows other = true) ∧
        ∀ other ∈ before ++ rest, options.knows other = true := by
    simp only [List.forall_mem_append, List.forall_mem_cons]
    exact ⟨⟨known, here, later⟩, known, later⟩
  -- Behind the file the run goes on to its end or to the first path that tells no dialect, whether the file is there or
  -- not.
  rcases options.known_or_cut after with later | ⟨middle, wrong, rest, rfl, later, unknown⟩
  · obtain ⟨all, others⟩ := knownAll later
    obtain ⟨stdout, faults, outcomes⟩ := total_failed ran before after
    let last := closing arguments.json (Progress.total files options stamp (before ++ after)).outcomes.reverse
    refine ⟨(Progress.total files options stamp after).stdout ++ last.1,
      (Progress.total files options stamp after).faults ++ last.2.toList, ?_, ?_, ?_⟩
    · rw [execute_known granted expanded all, Progress.finish]
      dsimp only
      rw [stdout, outcomes, String.append_assoc, String.append_assoc]
    · rw [execute_known granted expanded all, Progress.finish]
      dsimp only
      rw [faults, outcomes, List.append_assoc, List.cons_append]
    · intro files' arguments' granted' json' expanded' same
      obtain ⟨stdout', faults'⟩ := @total_append files options stamp before after
      rw [execute_known granted' expanded' others, total_congr others same, Progress.finish]
      dsimp only
      rw [json', stdout', faults', String.append_assoc, List.append_assoc]
      exact ⟨rfl, rfl⟩
  · obtain ⟨all, others⟩ := knownAll later
    obtain ⟨stdout, faults, -⟩ := total_failed ran before middle
    have expandedLater : files.expand arguments.paths = .ok ((before ++ path :: middle) ++ wrong :: rest) := by
      rw [expanded, List.append_assoc, List.cons_append]
    refine ⟨(Progress.total files options stamp middle).stdout,
      (Progress.total files options stamp middle).faults ++ [.unknownDialect], ?_, ?_, ?_⟩
    · rw [execute_cut granted expandedLater all unknown]
      exact stdout
    · rw [execute_cut granted expandedLater all unknown]
      dsimp only
      rw [faults, List.append_assoc, List.cons_append]
    · intro files' arguments' granted' json' expanded' same
      rw [← List.append_assoc] at expanded' same
      have sameMiddle := (List.forall_mem_append.mp same).1
      rw [execute_cut granted' expanded' others unknown, total_congr others sameMiddle]
      obtain ⟨stdout', faults'⟩ := @total_append files options stamp before middle
      dsimp only
      rw [faults', List.append_assoc]
      exact ⟨stdout', rfl⟩

theorem written_silent (silent : options.silent = true) (known : options.knows path = true) :
    written files options stamp path = "" := by
  have quiet : options.announces = false := by simp [Options.announces, silent]
  have told := (@Runner.told_eq_nil_iff files options stamp path known).mpr quiet
  unfold written
  dsimp only
  rw [told]
  cases (Runner.runFile files options stamp path).2 <;> simp [silent]

theorem total_silent (silent : options.silent = true) (known : ∀ path ∈ paths, options.knows path = true) :
    (Progress.total files options stamp paths).stdout = "" := by
  induction paths with
  | nil => rfl
  | cons path rest ih =>
      obtain ⟨here, later⟩ := List.forall_mem_cons.mp known
      have nothing : String.join (rest.map (written files options stamp)) = "" := ih later
      change String.join _ = ""
      rw [List.map_cons, String.join_cons, written_silent silent here, nothing]
      rfl

/-- A run that asks for JSON writes nothing but the report. -/
theorem execute_json (json : arguments.json = true) (granted : arguments.options = .ok options)
    (expanded : files.expand arguments.paths = .ok paths)
    (finished : ¬ ∃ fault ∈ (execute files stamp arguments).faults, fault.isConfiguration = true) :
    (execute files stamp arguments).stdout = (closing true (produced files options stamp paths)).1 ∧
      (execute files stamp arguments).faults =
        (Progress.total files options stamp paths).faults ++
          (closing true (produced files options stamp paths)).2.toList := by
  rw [execute_configuration_iff granted expanded] at finished
  have known : ∀ path ∈ paths, options.knows path = true := by simpa using finished
  have silent : options.silent = true := by rw [Options.select_silent granted, json, Bool.or_true]
  rw [execute_known granted expanded known, Progress.finish, json]
  dsimp only
  rw [total_silent silent known, String.empty_append, Progress.total, List.reverse_reverse]
  exact ⟨rfl, rfl⟩

end CommandLine

end Exemplar
