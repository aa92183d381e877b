/-!
# Decimal texts of numbers

A double is read from a decimal text as the nearest one, and shown by the fewest digits that read back as the same
double, always in positional notation. The digits are found in exact natural numbers: every finite double and the
two midpoints to its neighbours are whole multiples of one power of ten.
-/

namespace Exemplar

/-- The number `digits * 10 ^ exponent`. -/
structure Decimal where
  digits : Nat
  exponent : Int
  deriving DecidableEq, Repr

namespace Decimal

/-- The digits of a whole number, most significant first. -/
def natDigits (n : Nat) : List Char := Nat.toDigits 10 n

/-- The number without an exponent: a whole number, or digits on both sides of a point. -/
def positional (d : Decimal) : List Char :=
  match d.exponent with
  | .ofNat zeros => natDigits d.digits ++ List.replicate zeros '0'
  | .negSucc n =>
      let places := n + 1
      let digits := natDigits d.digits
      let padded := List.replicate (places + 1 - digits.length) '0' ++ digits
      padded.take (padded.length - places) ++ '.' :: padded.drop (padded.length - places)

/-- The multiple of `unit` next to `value` that lies between the ends, given as its count of units. Of the two
neighbours of `value` the nearer is taken, the upper one when both are equally near. -/
def gridPoint? (inside : Nat → Bool) (value unit : Nat) : Option Nat :=
  let below := value / unit
  let lower := inside (below * unit)
  let upper := inside ((below + 1) * unit)
  if lower && upper then
    if value - below * unit < (below + 1) * unit - value then some below else some (below + 1)
  else if lower then some below
  else if upper then some (below + 1)
  else none

/-- The shortest decimal that rounds to `mantissa * 2 ^ exponent`. The reals that round to it reach half way to the
neighbours; the lower neighbour is only half as far when `mantissa` is the least of its binade. The ends belong to
them when `mantissa` is even. -/
def shortest (mantissa : Nat) (exponent : Int) (leastOfBinade : Bool) : Decimal :=
  -- Everything is counted in quarters of the last binary place, then in units of `10 ^ scale`.
  let quarter := exponent - 2
  let weight := if 0 ≤ quarter then Nat.pow 2 quarter.toNat else Nat.pow 5 (-quarter).toNat
  let scale := min quarter 0
  let value := 4 * mantissa * weight
  let low := (4 * mantissa - (if leastOfBinade then 1 else 2)) * weight
  let high := (4 * mantissa + 2) * weight
  let inside (x : Nat) : Bool :=
    if mantissa % 2 = 0 then low ≤ x && x ≤ high else low < x && x < high
  let length := (natDigits value).length
  let found := (List.range (length + 1)).findSome? fun n =>
    let dropped := length - n
    (gridPoint? inside value (Nat.pow 10 dropped)).map fun count => ⟨count, scale + dropped⟩
  found.getD ⟨value, scale⟩

/-- The sign, the biased exponent and the fraction of a double. -/
structure Fields where
  negative : Bool
  biased : Nat
  fraction : Nat

/-- The fields of a double: one bit, eleven bits and fifty-two bits. -/
def fields (x : Float) : Fields :=
  let bits := x.toBits.toNat
  let tail := Nat.pow 2 52
  ⟨bits / Nat.pow 2 63 == 1, bits / tail % 2048, bits % tail⟩

/-- The magnitude of a finite double by the fewest digits. -/
def ofFloat (x : Float) : Decimal :=
  let f := fields x
  if f.biased = 0 then
    if f.fraction = 0 then ⟨0, 0⟩ else shortest f.fraction (-1074) false
  else
    shortest (Nat.pow 2 52 + f.fraction) ((f.biased : Int) - 1075) (f.fraction = 0 && f.biased ≠ 1)

/-- How a double is shown: the texts of the values that no digits can give. -/
structure Style where
  infinity : String
  keepsZeroSign : Bool

/-- A double as text: sign, then the fewest digits without an exponent. -/
def Style.show (style : Style) (x : Float) : String :=
  if x.isNaN then "NaN"
  else
    let negative := (fields x).negative && (style.keepsZeroSign || x != 0)
    let sign := if negative then "-" else ""
    if x.isInf then sign ++ style.infinity
    else sign ++ String.ofList (ofFloat x).positional

/-- The number written with the digits `whole`, a point and the digits `places`, rounded to the nearest double. -/
def read (negative : Bool) (whole places : List Char) : Float :=
  let digits := (whole ++ places).foldl (fun n c => 10 * n + (c.toNat - '0'.toNat)) 0
  let magnitude := Float.ofScientific digits true places.length
  if negative then -magnitude else magnitude

end Decimal

end Exemplar
