import Exemplar.CommandLine

/-!
# The program

Reads the files that are named on the command line, runs it on them, writes the result and gives the exit status. A
directory among the arguments stands for those files of the command line that lie below it.
-/

namespace Exemplar

/-- The contents of the files among the arguments, which are found from the working directory. -/
def readFiles (home : Place) (arguments : List String) : IO Files := do
  let mut files : Files := { home }
  for path in arguments do
    try
      files := files.write path (← IO.FS.readBinFile path)
    catch _ => pure ()
  return files

end Exemplar

def main (arguments : List String) : IO UInt32 := do
  let home := (← IO.getEnv "PWD").getD "/"
  let files ← Exemplar.readFiles (Exemplar.Place.ofPath [] home) arguments
  let stamp := toString (← IO.monoMsNow)
  let result := Exemplar.CommandLine.run files stamp (arguments.map .ofText)
  IO.print result.stdout
  for fault in result.faults do
    IO.eprintln s!"{fault.code}: {fault.message}"
  return result.exit.toUInt32
