import Exemplar.Text.CaseTable

/-!
# Letter case

Whole texts in capitals or in small letters. A character may turn into several. A capital sigma that ends a word
turns into the final small sigma.
-/

namespace Exemplar.Text

/-- The other case of `c` by the given tables; `c` itself when they are silent. -/
def convertCase (runs : List CaseRun) (expansions : List (Nat × List Nat)) (c : Char) : List Char :=
  match expansions.lookup c.toNat with
  | some codes => codes.map Char.ofNat
  | none =>
      match runs.find? (·.covers c.toNat) with
      | some run => [Char.ofNat (c.toNat + run.shift).toNat]
      | none => [c]

/-- Whether the first character that can carry a case does carry one. -/
def startsCased (text : List Char) : Bool :=
  match text.dropWhile (inRanges caseIgnorableRanges) with
  | [] => false
  | c :: _ => inRanges casedRanges c

def upper (text : List Char) : List Char :=
  text.flatMap (convertCase upperRuns upperExpansions)

/-- The small letters of `text`, where `before` is what precedes it, last character first. -/
def lowerAfter (before : List Char) : List Char → List Char
  | [] => []
  | c :: rest =>
      let small :=
        if c = 'Σ' then
          if startsCased before && !startsCased rest then ['ς'] else ['σ']
        else convertCase lowerRuns lowerExpansions c
      small ++ lowerAfter (c :: before) rest

def lower (text : List Char) : List Char := lowerAfter [] text

end Exemplar.Text
