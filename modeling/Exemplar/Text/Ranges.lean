/-!
# Classes of characters given by ranges
-/

namespace Exemplar.Text

/-- Whether the number of `c` lies in one of the closed `ranges`. -/
def inRanges (ranges : List (Nat × Nat)) (c : Char) : Bool :=
  ranges.any fun (first, last) => first ≤ c.toNat && c.toNat ≤ last

end Exemplar.Text
