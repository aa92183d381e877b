/-!
# Keyed pairs

Lists of pairs in strictly increasing order of their keys: writing a key replaces its value or puts it in place.
-/

namespace Exemplar.Keyed

variable {κ ν : Type} [Ord κ]

/-- Writes a value under a key. -/
def insert (key : κ) (value : ν) : List (κ × ν) → List (κ × ν)
  | [] => [(key, value)]
  | (other, old) :: rest =>
      match compare key other with
      | .lt => (key, value) :: (other, old) :: rest
      | .eq => (key, value) :: rest
      | .gt => (other, old) :: insert key value rest

def find? (key : κ) : List (κ × ν) → Option ν
  | [] => none
  | (other, value) :: rest =>
      match compare key other with
      | .eq => some value
      | _ => find? key rest

def insertAll (pairs : List (κ × ν)) (into : List (κ × ν)) : List (κ × ν) :=
  pairs.foldl (fun entries (key, value) => insert key value entries) into

end Exemplar.Keyed
