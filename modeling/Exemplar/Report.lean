import Exemplar.Json
import Exemplar.Raw
import Exemplar.Verdict

/-!
# Reports

What a run tells: a mark for every example and a line for every failure, with or without colour, or the same as JSON.
-/

namespace Exemplar

/-- What running one file gives: the instrumented program, or verdicts. -/
inductive Outcome where
  | source (text : String)
  | verdicts (verdicts : List Verdict)
  deriving DecidableEq, Repr

/-- The verdicts of an outcome; a program that was given back has none. -/
def Outcome.verdictList : Outcome → List Verdict
  | source _ => []
  | verdicts list => list

def Outcome.passed (outcome : Outcome) : Bool := outcome.verdictList.all (·.pass)

namespace Verdict

def mark (verdict : Verdict) : Char := if verdict.pass then '.' else 'x'

/-- What a failure line says behind its first word. -/
def failureText (verdict : Verdict) : String :=
  s!": expected {verdict.expected} on line {verdict.line} (got {verdict.actual})"

def failureLine (verdict : Verdict) : String := "FAIL" ++ verdict.failureText

end Verdict

namespace Report

/-- The marks, and a line for every failure. -/
def summary (verdicts : List Verdict) : String :=
  "\n".intercalate (
    String.ofList (verdicts.map (·.mark)) ::
    (verdicts.filter (!·.pass)).map (·.failureLine))

/-- The codes that switch colours: back to normal, green, red, bold red. -/
structure Palette where
  normal : String
  green : String
  red : String
  boldRed : String

def Palette.plain : Palette := ⟨"", "", "", ""⟩

/-- Colours by terminal codes. -/
def Palette.ansi : Palette :=
  ⟨"\x1b[0m", "\x1b[0m\x1b[32m", "\x1b[0m\x1b[31m", "\x1b[0m\x1b[1m\x1b[31m"⟩

/-- The summary as it is written out. -/
def write (palette : Palette) (verdicts : List Verdict) : String :=
  let marks := verdicts.map fun v => (if v.pass then palette.green else palette.red) ++ v.mark.toString
  let failures := (verdicts.filter (!·.pass)).map fun v =>
    palette.boldRed ++ "FAIL" ++ palette.normal ++ v.failureText ++ "\n"
  String.join marks ++ palette.normal ++ "\n" ++ String.join failures

def verdictJson (verdict : Verdict) : Json :=
  .object [("pass", .bool verdict.pass), ("actual", .string verdict.actual),
    ("expected", .string verdict.expected), ("line", .nat verdict.line)]

def fileJson (path : String) (outcome : Outcome) : Json :=
  match outcome with
  | .source text => .object [("path", .string path), ("mode", .string "source"), ("output", .string text)]
  | .verdicts verdicts =>
      .object [("path", .string path), ("mode", .string "results"), ("output", .array (verdicts.map verdictJson))]

/-- The report on several files. When a path is no text, what has been written before it. -/
def json (outcomes : List (Raw × Outcome)) : Except String String :=
  let items := outcomes.map fun (path, outcome) => path.text?.map (fileJson · outcome)
  match items.mapM id with
  | some items => .ok ((Json.array items).render 0 ++ "\n")
  | none =>
      let written := (items.takeWhile (·.isSome)).filterMap id
      .error (Json.renderOpen written ++ ('{'.toString ++ (Json.lineBreak 2 ++ (Json.quote "path" ++ ": "))))

def writeOutcome : Outcome → String
  | .source text => text ++ "\n"
  | .verdicts verdicts => write .plain verdicts

end Report

end Exemplar
