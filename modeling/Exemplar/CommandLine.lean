import Exemplar.Runner

/-!
# The command line

Arguments, what is written to standard output, which faults are reported, and the exit status. Standard output takes
all that is written to it.
-/

namespace Exemplar.CommandLine

structure Arguments where
  paths : List Raw := []
  envelope : Option String := none
  dialect : Option String := none
  lead : Option String := none
  print : Bool := false
  silent : Bool := false
  json : Bool := false
  deriving DecidableEq, Repr

/-- An option that takes a value. -/
inductive Setting where
  | envelope
  | dialect
  | lead
  deriving DecidableEq, Repr

/-- What an option asks for. -/
inductive Switch where
  | set (setting : Setting)
  | print
  | silent
  | json
  | help
  | version
  deriving DecidableEq, Repr

/-- Why arguments are no run. -/
inductive Stop where
  | misuse
  | help
  | version
  deriving DecidableEq, Repr

def Switch.ofLong? (name : List Char) : Option Switch :=
  if name = "module".toList then some (.set .envelope)
  else if name = "type".toList then some (.set .dialect)
  else if name = "prefix".toList then some (.set .lead)
  else if name = "print".toList then some .print
  else if name = "silent".toList then some .silent
  else if name = "json".toList then some .json
  else if name = "help".toList then some .help
  else if name = "version".toList then some .version
  else none

def Switch.ofShort? (letter : Char) : Option Switch :=
  if letter = 'm' then some (.set .envelope)
  else if letter = 't' then some (.set .dialect)
  else if letter = 'p' then some .print
  else if letter = 's' then some .silent
  else if letter = 'h' then some .help
  else if letter = 'V' then some .version
  else none

namespace Arguments

/-- Gives an option its value, once. -/
def set (arguments : Arguments) (setting : Setting) (value : String) : Except Stop Arguments :=
  match setting with
  | .envelope => if arguments.envelope.isSome then .error .misuse else .ok { arguments with envelope := some value }
  | .dialect => if arguments.dialect.isSome then .error .misuse else .ok { arguments with dialect := some value }
  | .lead => if arguments.lead.isSome then .error .misuse else .ok { arguments with lead := some value }

/-- Turns an option without a value on, once. -/
def turnOn (arguments : Arguments) : Switch → Except Stop Arguments
  | .print => if arguments.print then .error .misuse else .ok { arguments with print := true }
  | .silent => if arguments.silent then .error .misuse else .ok { arguments with silent := true }
  | .json => if arguments.json then .error .misuse else .ok { arguments with json := true }
  | .help => .error .help
  | .version => .error .version
  | .set _ => .error .misuse

/-- Adds a path, which may not be empty. -/
def addPath (arguments : Arguments) (path : Raw) : Except Stop Arguments :=
  if path.isEmpty then .error .misuse else .ok { arguments with paths := arguments.paths ++ [path] }

/-- Takes a long option. The option that still wants its value is given back. -/
def long (arguments : Arguments) (text : List Char) : Except Stop (Arguments × Option Setting) :=
  let name := text.takeWhile (· != '=')
  let value := (text.dropWhile (· != '=')).tail
  let hasValue := text.contains '='
  match Switch.ofLong? name with
  | none => .error .misuse
  | some (.set setting) =>
      if hasValue then do return (← arguments.set setting (String.ofList value), none)
      else .ok (arguments, some setting)
  | some switch => if hasValue then .error .misuse else do return (← arguments.turnOn switch, none)

/-- Takes options given by letters. What follows the letter of an option with a value is its value, without one
leading `=`. -/
def letters (arguments : Arguments) : List Char → Except Stop (Arguments × Option Setting)
  | [] => .ok (arguments, none)
  | letter :: rest =>
      match Switch.ofShort? letter with
      | none => .error .misuse
      | some (.set setting) =>
          match rest with
          | [] => .ok (arguments, some setting)
          | '=' :: value => do return (← arguments.set setting (String.ofList value), none)
          | value => do return (← arguments.set setting (String.ofList value), none)
      | some switch => do (← arguments.turnOn switch).letters rest

/-- Takes one argument that is not the value of an option. One that is no text is misuse, unless it can be a path or
asks for help before it stops being text. -/
def take (arguments : Arguments) (argument : Raw) : Except Stop (Arguments × Option Setting) :=
  match argument.text? with
  | some text =>
      match text.toList with
      | '-' :: '-' :: text => arguments.long text
      | '-' :: letter :: more => arguments.letters (letter :: more)
      | _ => do return (← arguments.addPath argument, none)
  | none =>
      match argument.leading with
      | '-' :: '-' :: _ => .error .misuse
      | '-' :: letters => do
          let _ ← arguments.letters letters
          .error .misuse
      | _ => do return (← arguments.addPath argument, none)

/-- The argument as the value of the option before it. -/
def value? (argument : Raw) : Option String :=
  argument.text?.filter fun text =>
    match text.toList with
    | '-' :: _ :: _ => false
    | _ => true

/-- Takes all arguments in order. Behind `--` all of them are paths. -/
def takeAll (arguments : Arguments) : List Raw → Except Stop Arguments
  | [] => .ok arguments
  | argument :: rest =>
      if argument = Raw.ofText "--" then rest.foldlM addPath arguments
      else
        match arguments.take argument, rest with
        | .error stop, _ => .error stop
        | .ok (arguments, none), rest => arguments.takeAll rest
        | .ok (arguments, some setting), value :: rest =>
            match value? value with
            | some text =>
                match arguments.set setting text with
                | .ok arguments => arguments.takeAll rest
                | .error stop => .error stop
            | none => .error .misuse
        | .ok (_, some _), [] => .error .misuse

/-- Reads the arguments of a run: at least one path, and not both JSON and programs. -/
def parse (given : List Raw) : Except Stop Arguments := do
  let arguments ← ({} : Arguments).takeAll given
  if arguments.paths.isEmpty || (arguments.json && arguments.print) then .error .misuse else return arguments

/-- The options that the arguments ask for. JSON takes the place of all other output. -/
def options (arguments : Arguments) : Except Fault Options :=
  Options.select
    { lead := arguments.lead.getD "", print := arguments.print, silent := arguments.silent || arguments.json }
    arguments.envelope arguments.dialect

end Arguments

/-- What a run leaves: its exit status, what it wrote, and the faults it reported, in order. -/
structure Result where
  exit : Nat
  stdout : String
  faults : List Fault
  deriving DecidableEq, Repr

/-- What has come of the files so far. -/
structure Progress where
  ok : Bool := true
  stdout : String := ""
  faults : List Fault := []
  /-- The outcomes, last first. -/
  outcomes : List (Raw × Outcome) := []

/-- Runs one file. A fault in what was asked for ends the whole run. -/
def Progress.step (files : Files) (options : Options) (stamp : String) (progress : Progress) (path : Raw) :
    Except Progress Progress :=
  let (told, result) := Runner.runFile files options stamp path
  let stdout := progress.stdout ++ String.join (told.map (· ++ "\n"))
  match result with
  | .ok outcome =>
      .ok
        { progress with
          ok := progress.ok && outcome.passed
          stdout := if options.silent then stdout else stdout ++ Report.writeOutcome outcome
          outcomes := (path, outcome) :: progress.outcomes }
  | .error fault =>
      let stopped := { progress with ok := false, stdout, faults := progress.faults ++ [fault] }
      if fault.isConfiguration then .error stopped else .ok stopped

def runFiles (files : Files) (options : Options) (stamp : String) (paths : List Raw) : Except Progress Progress :=
  paths.foldlM (Progress.step files options stamp) {}

/-- What is written at the end of a run in which all files have been tried, and the fault that ends it too early. -/
def closing (json : Bool) (outcomes : List (Raw × Outcome)) : String × Option Fault :=
  if json then
    match Report.json outcomes with
    | .ok report => (report, none)
    | .error written => (written, some (.unreadable "<stdout>"))
  else ("", none)

def Progress.finish (progress : Progress) (json : Bool) : Result :=
  let (text, fault) := closing json progress.outcomes.reverse
  ⟨if progress.ok && fault.isNone then 0 else 1, progress.stdout ++ text, progress.faults ++ fault.toList⟩

def execute (files : Files) (stamp : String) (arguments : Arguments) : Result :=
  match arguments.options with
  | .error fault => ⟨1, "", [fault]⟩
  | .ok options =>
      match files.expand arguments.paths with
      | .error fault => ⟨1, "", [fault]⟩
      | .ok paths =>
          match runFiles files options stamp paths with
          | .error progress => ⟨1, progress.stdout, progress.faults⟩
          | .ok progress => progress.finish arguments.json

def usage : String := "Usage: sx-doctest [OPTIONS] <PATHS>...\n"

def run (files : Files) (stamp : String) (given : List Raw) : Result :=
  match Arguments.parse given with
  | .ok arguments => execute files stamp arguments
  | .error .misuse => ⟨2, "", []⟩
  | .error .help => ⟨0, usage, []⟩
  | .error .version => ⟨0, "sx-doctest 0.1.0\n", []⟩

end Exemplar.CommandLine
