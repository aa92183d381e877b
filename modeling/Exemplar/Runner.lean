import Exemplar.Files
import Exemplar.Instrument
import Exemplar.Options
import Exemplar.Program
import Exemplar.Report

/-!
# Running one file

A file is read, instrumented and put into its envelope; the program is then given back or run. A program that exports
its queue is loaded from a file of its own, which is gone again when it has been loaded. The name of that file tells the
time of the run, so that it is the name of no other file.
-/

namespace Exemplar.Runner

/-- The path of the module that stands for the program at `path`. -/
def modulePath (path : Raw) (stamp : String) : Raw :=
  let stem := ((Path.stem? path).bind Raw.text?).getD "doctest"
  Path.child (Path.directory path) (stem ++ "-" ++ stamp ++ ".sx")

/-- Runs an instrumented program and gives its verdicts. -/
def execute (options : Options) (stamp : String) (path : Raw) (program : String) : Except Fault (List Verdict) := do
  let loaded ←
    if options.envelope.exportsQueue then Program.loadModule program (modulePath path stamp).shown
    else Program.load program
  return (Program.judge loaded).1

/-- Runs the text of the file at `path`. -/
def runText (options : Options) (dialect : Dialect) (stamp : String) (path : Raw) (text : String) :
    Except Fault Outcome := do
  let program := options.envelope.wrap (← Instrument.program dialect options.lead.toList text.toList)
  if options.print then return .source (String.ofList (Text.dropFinalBreak program))
  else return .verdicts (← execute options stamp path (String.ofList program))

/-- Runs the file at `path`: the progress that is told, and the outcome. The time of the run is `stamp`. -/
def runFile (files : Files) (options : Options) (stamp : String) (path : Raw) :
    List String × Except Fault Outcome :=
  let told (lines : List String) := if options.announces then lines else []
  match options.dialectOf path with
  | .error fault => ([], .error fault)
  | .ok dialect =>
      let retrieving := s!"retrieving {path.shown}..."
      match files.read? path with
      | none => (told [retrieving], .error (.unreadable path.shown))
      | some text =>
          let name := ((Path.fileName? path).getD path).shown
          (told [retrieving, s!"running doctests in {name}..."], runText options dialect stamp path text)

end Exemplar.Runner
