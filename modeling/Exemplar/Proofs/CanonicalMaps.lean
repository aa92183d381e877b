import Exemplar.Proofs.DeepEquality
import Exemplar.Proofs.Scopes

/-!
# Canonical maps

A map is written pair by pair, by a map literal, by quoting one, or by calls of `assoc`. Its entries stand in the order
of their keys and depend only on the last pair for each key, so maps that hold equal values under the same keys are
equal, in whatever order they were written.
-/

namespace Exemplar

/-! ## The order of keys -/

namespace Text

/-- Comparing numbers is comparing their digits to the base 64, the highest first. -/
theorem digits_lt {m n : Nat} (less : m < n) :
    m / 262144 < n / 262144 ∨ m / 262144 = n / 262144 ∧ (m / 4096 % 64 < n / 4096 % 64 ∨
      m / 4096 % 64 = n / 4096 % 64 ∧ (m / 64 % 64 < n / 64 % 64 ∨ m / 64 % 64 = n / 64 % 64 ∧ m % 64 < n % 64)) := by
  omega

/-- The bytes of characters are ordered as the characters are, whatever follows. -/
theorem utf8EncodeChar_lt {c d : Char} (less : c < d) (left right : List UInt8) :
    String.utf8EncodeChar c ++ left < String.utf8EncodeChar d ++ right := by
  have ordered : c.val.toNat < d.val.toNat := less
  have bound : d.val.toNat < 0x110000 := by
    have valid := d.valid
    simp only [UInt32.isValidChar, Nat.isValidChar] at valid
    omega
  have digits := digits_lt ordered
  unfold String.utf8EncodeChar
  dsimp only
  generalize c.val.toNat = m at *
  generalize d.val.toNat = n at *
  split_ifs <;>
    simp (disch := omega) only [List.cons_append, List.nil_append, List.cons_lt_cons_iff, UInt8.lt_iff_toNat_lt,
      ← UInt8.toNat_inj, UInt8.toNat_ofNat', Nat.mod_eq_of_lt] <;> omega

theorem flatMap_utf8EncodeChar_lt {left right : List Char} (less : left < right) :
    left.flatMap String.utf8EncodeChar < right.flatMap String.utf8EncodeChar := by
  induction left generalizing right with
  | nil =>
      cases right with
      | nil => exact absurd less (lt_irrefl _)
      | cons d more =>
          rw [List.flatMap_cons]
          obtain ⟨byte, bytes, same⟩ := List.exists_cons_of_ne_nil (@String.utf8EncodeChar_ne_nil d)
          rw [same]
          exact List.nil_lt_cons _ _
  | cons c rest ih =>
      cases right with
      | nil => exact absurd less (List.not_lt_nil _)
      | cons d more =>
          rw [List.flatMap_cons, List.flatMap_cons]
          rcases List.cons_lt_cons_iff.mp less with first | ⟨rfl, later⟩
          · exact utf8EncodeChar_lt first _ _
          · exact List.append_left_lt (ih later)

def bytes (text : String) : List UInt8 := text.toByteArray.data.toList

theorem bytes_eq (text : String) : bytes text = text.toList.flatMap String.utf8EncodeChar := by
  have encoded := @String.toByteArray_ofList text.toList
  rw [String.ofList_toList] at encoded
  rw [bytes, encoded, List.utf8Encode, List.data_toByteArray]

/-- Texts are ordered by their bytes. -/
theorem compare_eq_lt_iff (a b : String) : compare a b = .lt ↔ bytes a < bytes b := by
  have less : compare a b = .lt ↔ a.toList < b.toList := by
    rw [← String.lt_iff_toList_lt]
    exact compareOfLessAndEq_eq_lt
  rw [less, bytes_eq, bytes_eq]
  constructor
  · exact flatMap_utf8EncodeChar_lt
  · intro ordered
    rcases lt_trichotomy a.toList b.toList with before | same | behind
    · exact before
    · rw [same] at ordered
      exact absurd ordered (List.lt_irrefl _)
    · exact absurd ordered (List.lt_asymm (flatMap_utf8EncodeChar_lt behind))

end Text

namespace Key

/-- Keywords come before strings, and both come in the order of their bytes. -/
def Precedes : Key → Key → Prop
  | keyword a, keyword b => Text.bytes a < Text.bytes b
  | keyword _, string _ => True
  | string _, keyword _ => False
  | string a, string b => Text.bytes a < Text.bytes b

theorem compare_eq_lt_iff (k l : Key) : compare k l = .lt ↔ k.Precedes l := by
  cases k <;> cases l <;> simp [Precedes, compare, ← Text.compare_eq_lt_iff]

instance : Std.TransOrd Key where
  eq_swap {k l} := by
    have texts (a b : String) : compare a b = (compare b a).swap := Std.OrientedOrd.eq_swap
    cases k <;> cases l <;> first | rfl | exact texts _ _
  isLE_trans {k l j} first second := by
    have texts {a b c : String} (first : (compare a b).isLE) (second : (compare b c).isLE) : (compare a c).isLE :=
      Std.TransOrd.isLE_trans first second
    cases k with
    | keyword a =>
        cases j with
        | string c => rfl
        | keyword c =>
            cases l with
            | keyword b => exact texts first second
            | string b => cases second
    | string a =>
        cases l with
        | keyword b => cases first
        | string b =>
            cases j with
            | keyword c => cases second
            | string c => exact texts first second

instance : Std.LawfulEqOrd Key where
  eq_of_compare {k l} equal := by
    have texts {a b : String} (equal : compare a b = .eq) : a = b := Std.LawfulEqOrd.eq_of_compare equal
    cases k <;> cases l
    case keyword.keyword => exact congrArg keyword (texts equal)
    case string.string => exact congrArg string (texts equal)
    all_goals cases equal

end Key

/-! ## Keyed pairs in order -/

namespace Keyed

variable {κ ν : Type} [Ord κ]

/-- Pairs in strictly increasing order of their keys. -/
def Sorted (pairs : List (κ × ν)) : Prop := pairs.Pairwise fun first second => compare first.1 second.1 = .lt

theorem mem_of_mem_insert {key : κ} {value : ν} {pairs : List (κ × ν)} {pair : κ × ν}
    (member : pair ∈ insert key value pairs) : pair = (key, value) ∨ pair ∈ pairs := by
  induction pairs with
  | nil => exact .inl (List.mem_singleton.mp member)
  | cons other rest ih =>
      obtain ⟨own, old⟩ := other
      rw [insert] at member
      split at member
      · exact List.mem_cons.mp member
      · exact (List.mem_cons.mp member).imp_right (List.mem_cons_of_mem _)
      · rcases List.mem_cons.mp member with here | later
        · exact .inr (here ▸ List.mem_cons_self)
        · exact (ih later).imp_right (List.mem_cons_of_mem _)

variable [Std.LawfulEqOrd κ]

section

variable [Std.TransOrd κ]

theorem Sorted.insert {pairs : List (κ × ν)} (sorted : Sorted pairs) (key : κ) (value : ν) :
    Sorted (Keyed.insert key value pairs) := by
  induction pairs with
  | nil => exact List.pairwise_singleton _ _
  | cons pair rest ih =>
      obtain ⟨own, old⟩ := pair
      obtain ⟨above, later⟩ := List.pairwise_cons.mp sorted
      rw [Keyed.insert]
      split
      · next less =>
          refine List.pairwise_cons.mpr ⟨fun other member => ?_, sorted⟩
          rcases List.mem_cons.mp member with rfl | behind
          · exact less
          · exact Std.TransCmp.lt_trans less (above other behind)
      · next equal =>
          obtain rfl := Std.LawfulEqCmp.eq_of_compare equal
          exact List.pairwise_cons.mpr ⟨above, later⟩
      · next greater =>
          refine List.pairwise_cons.mpr ⟨fun other member => ?_, ih later⟩
          rcases mem_of_mem_insert member with rfl | behind
          · exact Std.OrientedCmp.lt_of_gt greater
          · exact above other behind

omit [Std.LawfulEqOrd κ] [Std.TransOrd κ] in
theorem insertAll_append (left right pairs : List (κ × ν)) :
    insertAll (left ++ right) pairs = insertAll right (insertAll left pairs) := List.foldl_append

theorem sorted_insertAll (written : List (κ × ν)) {pairs : List (κ × ν)} (sorted : Sorted pairs) :
    Sorted (insertAll written pairs) := by
  induction written generalizing pairs with
  | nil => exact sorted
  | cons pair rest ih => exact ih (sorted.insert pair.1 pair.2)

end

variable [DecidableEq κ]

theorem Sorted.find?_eq_some_iff {pairs : List (κ × ν)} (sorted : Sorted pairs) {key : κ} {value : ν} :
    find? key pairs = some value ↔ (key, value) ∈ pairs := by
  induction pairs with
  | nil => simp [find?]
  | cons pair rest ih =>
      obtain ⟨own, old⟩ := pair
      obtain ⟨above, later⟩ := List.pairwise_cons.mp sorted
      rw [find?_cons, List.mem_cons, Prod.mk.injEq]
      by_cases same : key = own
      · subst same
        have absent : (key, value) ∉ rest := by
          intro member
          have less : compare key key = .lt := above _ member
          rw [Std.ReflOrd.compare_self] at less
          cases less
        simp [absent, eq_comm]
      · simp [same, ih later]

/-- Pairs in order are known by the values under their keys. -/
theorem Sorted.ext [Std.OrientedOrd κ] {left right : List (κ × ν)} (sortedLeft : Sorted left)
    (sortedRight : Sorted right) (same : ∀ key, find? key left = find? key right) : left = right := by
  have differ {first second : κ × ν} (less : compare first.1 second.1 = .lt) : first ≠ second := by
    rintro rfl
    rw [Std.ReflOrd.compare_self] at less
    cases less
  have members (pair : κ × ν) : pair ∈ left ↔ pair ∈ right := by
    rw [← sortedLeft.find?_eq_some_iff, same, sortedRight.find?_eq_some_iff]
  have perm : left.Perm right :=
    (List.perm_ext_iff_of_nodup (sortedLeft.imp differ) (sortedRight.imp differ)).mpr members
  refine perm.eq_of_pairwise (fun first second _ _ less greater => ?_) sortedLeft sortedRight
  rw [Std.OrientedOrd.eq_swap, greater] at less
  cases less

end Keyed

/-! ## What was written last -/

namespace Keyed

variable {κ ν : Type} [DecidableEq κ]

/-- The value of the last pair with the key. -/
def last? (key : κ) (written : List (κ × ν)) : Option ν := written.reverse.lookup key

theorem last?_append (key : κ) (left right : List (κ × ν)) :
    last? key (left ++ right) = (last? key right).or (last? key left) := by
  rw [last?, List.reverse_append, List.lookup_append]
  rfl

theorem last?_singleton (key own : κ) (value : ν) :
    last? key [(own, value)] = if key = own then some value else none := by
  by_cases same : key = own <;> simp [last?, same]

theorem mem_of_last? {key : κ} {written : List (κ × ν)} {value : ν} (found : last? key written = some value) :
    (key, value) ∈ written := by
  obtain ⟨before, after, whole, _⟩ := List.lookup_eq_some_iff.mp found
  rw [← List.mem_reverse, whole]
  simp

theorem exists_last?_iff {key : κ} {written : List (κ × ν)} :
    (∃ value, last? key written = some value) ↔ ∃ value, (key, value) ∈ written := by
  constructor
  · rintro ⟨value, found⟩
    exact ⟨value, mem_of_last? found⟩
  · rintro ⟨value, member⟩
    have found := List.lookup_isSome_iff.mpr ⟨_, List.mem_reverse.mpr member, beq_self_eq_true key⟩
    exact Option.isSome_iff_exists.mp found

/-- When no key comes twice, the pairs say what is under a key, whatever their order. -/
theorem last?_perm {left right : List (κ × ν)} (perm : left.Perm right) (distinct : (left.map (·.1)).Nodup) (key : κ) :
    last? key left = last? key right := by
  have only {value other : ν} (first : (key, value) ∈ left) (second : (key, other) ∈ left) : value = other :=
    congrArg Prod.snd (List.inj_on_of_nodup_map distinct first second rfl)
  have found {written : List (κ × ν)} (perm : written.Perm left) {value : ν} (member : (key, value) ∈ left) :
      last? key written = some value := by
    obtain ⟨other, last⟩ := exists_last?_iff.mpr ⟨value, perm.mem_iff.mpr member⟩
    rw [last, only member (perm.mem_iff.mp (mem_of_last? last))]
  ext value
  constructor
  · exact fun last => found perm.symm (mem_of_last? last)
  · exact fun last => found (.refl left) (perm.mem_iff.mpr (mem_of_last? last))

theorem find?_insertAll [Ord κ] [Std.LawfulEqOrd κ] (key : κ) (written pairs : List (κ × ν)) :
    find? key (insertAll written pairs) = (last? key written).or (find? key pairs) := by
  induction written generalizing pairs with
  | nil => rfl
  | cons pair rest ih =>
      have step : insertAll (pair :: rest) pairs = insertAll rest (insert pair.1 pair.2 pairs) := rfl
      rw [step, ih, find?_insert, ← List.singleton_append, last?_append, last?_singleton, Option.or_assoc]
      split <;> rfl

end Keyed

/-! ## How maps are made -/

namespace Value

/-- The pairs that are written when keys and values are given in turn. -/
def pairs : List Value → List (Key × Value)
  | key :: value :: rest => (key.key?.toList.map (·, value)) ++ pairs rest
  | _ => []

/-- The pairs of a quoted map literal. A form that is no key counts as the string that shows it. -/
def quotedPairs : List Form → List (Key × Value)
  | key :: value :: rest => (key.quoted.key?.getD (.string key.quoted.render), value.quoted) :: quotedPairs rest
  | _ => []

/-- The map `m` was made by writing the pairs in order: by evaluating a map literal, by quoting one, or by calls of
`assoc` on such a map or on `nil`. -/
inductive MadeOf : (written : List (Key × Value)) → (m : Value) → Prop where
  | literal {call : Caller} {scope : Nat} {items : List Form} {values : List Value} {s t : Store} {m : Value}
      (parts : (Eval.list call scope items).run.run s = (.ok values, t))
      (evaluated : (Eval.form call scope (.group .curly items)).run.run s = (.ok m, t)) : MadeOf (pairs values) m
  | quoted (items : List Form) : MadeOf (quotedPairs items) (Form.group .curly items).quoted
  | fresh {args : List Value} {m : Value} (called : Compute.assoc (.nil :: args) = .ok m) : MadeOf (pairs args) m
  | assoc {written : List (Key × Value)} {m m' : Value} {args : List Value} (made : MadeOf written m)
      (called : Compute.assoc (m :: args) = .ok m') : MadeOf (written ++ pairs args) m'

theorem quotedEntries_eq :
    (items : List Form) → (entries : List (Key × Value)) →
      Form.quotedEntries entries items = Keyed.insertAll (quotedPairs items) entries
  | [], _ => rfl
  | [_], _ => rfl
  | key :: value :: rest, entries => by
      rw [Form.quotedEntries, quotedEntries_eq rest]
      rfl

/-- Keys and values in turn. -/
def spread (written : List (Key × Value)) : List Value := written.flatMap fun pair => [pair.1.value, pair.2]

theorem pairs_spread (written : List (Key × Value)) : pairs (spread written) = written := by
  induction written with
  | nil => rfl
  | cons pair rest ih =>
      obtain ⟨key, value⟩ := pair
      change key.value.key?.toList.map (·, value) ++ pairs (spread rest) = _
      rw [ih]
      cases key <;> rfl

end Value

namespace Compute

open Value

theorem key_value (f : Native) (key : Key) : f.key key.value = .ok key := by cases key <;> rfl

theorem key?_of_key_ok {f : Native} {value : Value} {key : Key} (taken : f.key value = .ok key) :
    value.key? = some key := by
  unfold Native.key at taken
  split at taken
  · next found =>
      cases taken
      exact found
  · cases taken

theorem assocAll_ok : {args : List Value} → {entries written : List (Key × Value)} →
    assocAll entries args = .ok written → written = Keyed.insertAll (pairs args) entries
  | [], _, _, called => by cases called; rfl
  | [_], _, _, called => by cases called; rfl
  | key :: value :: rest, entries, written, called => by
      rw [assocAll] at called
      obtain ⟨k, taken, later⟩ := exists_of_bind called
      rw [assocAll_ok later, pairs, key?_of_key_ok taken]
      rfl

theorem assocAll_spread (entries written : List (Key × Value)) :
    assocAll entries (spread written) = .ok (Keyed.insertAll written entries) := by
  induction written generalizing entries with
  | nil => rfl
  | cons pair rest ih =>
      change assocAll entries (pair.1.value :: pair.2 :: spread rest) = _
      rw [assocAll, key_value]
      exact ih _

/-- What `assoc` returns is the map it was given with the pairs written into it. -/
theorem assoc_ok {m m' : Value} {args : List Value} (called : assoc (m :: args) = .ok m') :
    ∃ entries, Native.assoc.entries m = .ok entries ∧ m' = .map (Keyed.insertAll (pairs args) entries) := by
  unfold assoc at called
  split at called
  · next same =>
      cases same
      split at called
      · obtain ⟨entries, given, called⟩ := exists_of_bind called
        obtain ⟨result, wrote, returned⟩ := exists_of_bind called
        cases returned
        exact ⟨entries, given, congrArg map (assocAll_ok wrote)⟩
      · cases called
  · cases called

theorem length_spread (written : List (Key × Value)) : (spread written).length = 2 * written.length := by
  simp [spread, List.length_flatMap, mul_comm]

theorem assoc_spread {m : Value} {entries written : List (Key × Value)} (given : Native.assoc.entries m = .ok entries)
    (some : written ≠ []) : assoc (m :: spread written) = .ok (.map (Keyed.insertAll written entries)) := by
  obtain ⟨pair, rest, rfl⟩ := List.exists_cons_of_ne_nil some
  have wrote := assocAll_spread entries (pair :: rest)
  change (if (spread rest).length % 2 = 0 then _ else _) = _
  rw [if_pos (by rw [length_spread]; omega), given]
  change (assocAll entries (spread (pair :: rest)) >>= _) = _
  rw [wrote]
  rfl

theorem getOr_map (entries : List (Key × Value)) (key : Key) (default : Value) :
    getOr (.map entries) key.value default = .ok ((Keyed.find? key entries).getD default) := by
  change (Native.get.key key.value >>= _) = _
  rw [key_value]
  rfl

end Compute

namespace Eval

theorem bind_eq_ok {α β : Type} {x : Eval α} {next : α → Eval β} {b : β} {s t : Store}
    (ran : (x >>= next).run.run s = (.ok b, t)) :
    ∃ a middle, x.run.run s = (.ok a, middle) ∧ (next a).run.run middle = (.ok b, t) := by
  rw [run_bind] at ran
  split at ran
  · next a middle first => exact ⟨a, middle, first, ran⟩
  · cases ran

theorem list_cons_ok {call : Caller} {scope : Nat} {item : Form} {rest : List Form} {value : Value}
    {values : List Value} {s middle t : Store} (first : (form call scope item).run.run s = (.ok value, middle))
    (later : (list call scope rest).run.run middle = (.ok values, t)) :
    (list call scope (item :: rest)).run.run s = (.ok (value :: values), t) := by
  rw [list, run_bind, first]
  dsimp only
  rw [run_bind, later]
  rfl

/-- A map literal evaluates its forms as a list does, and writes their values in pairs. -/
theorem entries_ok (call : Caller) (scope : Nat) : (items : List Form) → {written result : List (Key × Value)} →
    {s t : Store} → items.length % 2 = 0 → (entries call scope written items).run.run s = (.ok result, t) →
      ∃ values, (list call scope items).run.run s = (.ok values, t) ∧
        result = Keyed.insertAll (Value.pairs values) written
  | [], _, _, _, _, _, ran => by
      cases ran
      exact ⟨[], rfl, rfl⟩
  | [_], _, _, _, _, even, _ => by cases even
  | key :: value :: rest, written, result, s, t, even, ran => by
      have evenRest : rest.length % 2 = 0 := by
        rw [List.length_cons, List.length_cons] at even
        omega
      rw [entries] at ran
      obtain ⟨k, middle, evaluated, ran⟩ := bind_eq_ok ran
      split at ran
      · next isKey =>
          obtain ⟨v, after, given, ran⟩ := bind_eq_ok ran
          obtain ⟨values, listed, wrote⟩ := entries_ok call scope rest evenRest ran
          refine ⟨k :: v :: values, list_cons_ok evaluated (list_cons_ok given listed), ?_⟩
          rw [wrote, Value.pairs, isKey]
          rfl
      · cases ran

theorem curly_ok {call : Caller} {scope : Nat} {items : List Form} {s t : Store} {m : Value}
    (evaluated : (form call scope (.group .curly items)).run.run s = (.ok m, t)) :
    ∃ values, (list call scope items).run.run s = (.ok values, t) ∧
      m = .map (Keyed.insertAll (Value.pairs values) []) := by
  rw [form] at evaluated
  split at evaluated
  · next even =>
      obtain ⟨result, after, ran, returned⟩ := bind_eq_ok evaluated
      cases returned
      obtain ⟨values, listed, wrote⟩ := entries_ok call scope items even ran
      exact ⟨values, listed, congrArg Value.map wrote⟩
  · cases evaluated

end Eval

namespace Value

open Keyed

theorem MadeOf.eq_map {written : List (Key × Value)} {m : Value} (made : MadeOf written m) :
    m = map (insertAll written []) := by
  induction made with
  | literal parts evaluated =>
      obtain ⟨values, listed, rfl⟩ := Eval.curly_ok evaluated
      rw [parts] at listed
      cases listed
      rfl
  | quoted items => rw [Form.quoted, quotedEntries_eq]
  | fresh called =>
      obtain ⟨entries, given, rfl⟩ := Compute.assoc_ok called
      cases given
      rfl
  | assoc made called ih =>
      obtain ⟨entries, given, rfl⟩ := Compute.assoc_ok called
      rw [ih] at given
      cases given
      rw [insertAll_append]

theorem find?_written (key : Key) (written : List (Key × Value)) :
    find? key (insertAll written []) = last? key written := by
  rw [find?_insertAll]
  exact Option.or_none

theorem sorted_written (written : List (Key × Value)) : Sorted (insertAll written []) :=
  sorted_insertAll written List.Pairwise.nil

/-- Entries in order are equal when equal values are under the same keys. -/
theorem sameEntries_iff_find? {left right : List (Key × Value)} (sortedLeft : Sorted left)
    (sortedRight : Sorted right) :
    sameEntries left right = true ↔
      ∀ key, Option.Rel (fun v w => v.same w = true) (find? key left) (find? key right) := by
  have alike (a b : Option Value) : Option.Rel (fun v w => v.same w = true) a b ↔ a.map essence = b.map essence := by
    cases a <;> cases b <;> simp [same_iff]
  have sorted {pairs : List (Key × Value)} (given : Sorted pairs) : Sorted (entryEssences pairs) := by
    rw [entryEssences_eq]
    exact List.pairwise_map.mpr given
  simp only [sameEntries_iff, alike, ← find?_map, ← entryEssences_eq]
  constructor
  · intro same key
    rw [same]
  · exact (sorted sortedLeft).ext (sorted sortedRight)

namespace MadeOf

variable {written written' : List (Key × Value)} {m m' : Value}

theorem keys (made : MadeOf written m) :
    ∃ keys : List Key, Compute.keys [m] = .ok (list (keys.map Key.value)) ∧ keys.Pairwise Key.Precedes ∧
      ∀ key, key ∈ keys ↔ ∃ value, (key, value) ∈ written := by
  refine ⟨(insertAll written []).map (·.1), ?_, ?_, fun key => ?_⟩
  · rw [made.eq_map, List.map_map]
    rfl
  · exact List.pairwise_map.mpr ((sorted_written written).imp (Key.compare_eq_lt_iff _ _).mp)
  · rw [← exists_last?_iff, ← find?_written]
    simp [(sorted_written written).find?_eq_some_iff]

theorem get (made : MadeOf written m) (key : Key) (default : Value) :
    Compute.get [m, key.value, default] = .ok ((last? key written).getD default) := by
  rw [made.eq_map, ← find?_written]
  exact Compute.getOr_map _ key default

theorem assoc_spread (made : MadeOf written m) {more : List (Key × Value)} (some : more ≠ []) :
    ∃ m', Compute.assoc (m :: spread more) = .ok m' ∧ MadeOf (written ++ more) m' := by
  obtain rfl := made.eq_map
  have called := Compute.assoc_spread (m := map (insertAll written [])) rfl some
  refine ⟨_, called, ?_⟩
  have whole := made.assoc called
  rwa [pairs_spread] at whole

theorem same_iff (made : MadeOf written m) (made' : MadeOf written' m') :
    m.same m' = true ↔ ∀ key, Option.Rel (fun v w => v.same w = true) (last? key written) (last? key written') := by
  simp only [made.eq_map, made'.eq_map, same, sameEntries_iff_find? (sorted_written written) (sorted_written written'),
    find?_written]

/-- The entries are known by what was written last under each key. -/
theorem ext (made : MadeOf written m) (made' : MadeOf written' m')
    (same : ∀ key, last? key written = last? key written') : m = m' := by
  rw [made.eq_map, made'.eq_map]
  refine congrArg map ((sorted_written written).ext (sorted_written written') fun key => ?_)
  rw [find?_written, find?_written, same]

end MadeOf

/-- A map literal, a quoted one and every chain of `assoc` calls make maps that depend only on the last value written
under each key. Their keys come in order and once each, `get` finds the last value or gives the default, and `assoc`
writes further pairs and leaves the other keys alone. Maps are equal when equal values are under the same keys, so the
order in which pairs of distinct keys are written does not matter, nor which calls write them. -/
theorem maps_canonical :
    (∀ call scope items s t m, (Eval.form call scope (.group .curly items)).run.run s = (.ok m, t) →
      ∃ values, (Eval.list call scope items).run.run s = (.ok values, t) ∧ MadeOf (pairs values) m) ∧
    (∀ call scope items s, ∃ m, (Eval.form call scope (.quote (.group .curly items))).run.run s = (.ok m, s) ∧
      MadeOf (quotedPairs items) m) ∧
    (∀ written m, MadeOf written m →
      (∃ keys : List Key, Compute.keys [m] = .ok (list (keys.map Key.value)) ∧ keys.Pairwise Key.Precedes ∧
        ∀ key, key ∈ keys ↔ ∃ value, (key, value) ∈ written) ∧
      (∀ (key : Key) default, Compute.get [m, key.value] = .ok ((last? key written).getD nil) ∧
        Compute.get [m, key.value, default] = .ok ((last? key written).getD default)) ∧
      (∀ more, more ≠ [] → ∃ m', Compute.assoc (m :: spread more) = .ok m' ∧ MadeOf (written ++ more) m') ∧
      ∀ (key : Key) value, ∃ m', Compute.assoc [m, key.value, value] = .ok m' ∧
        ∀ (other : Key) default, Compute.get [m', other.value, default] =
          if other = key then .ok value else Compute.get [m, other.value, default]) ∧
    (∀ written written' m m', MadeOf written m → MadeOf written' m' →
      (m.same m' = true ↔ ∀ key, Option.Rel (fun v w => v.same w = true) (last? key written) (last? key written'))) ∧
    ∀ base left right m m', left.Perm right → (left.map (·.1)).Nodup → MadeOf (base ++ left) m →
      MadeOf (base ++ right) m' → m.same m' = true ∧ m.render = m'.render := by
  refine ⟨?_, fun call scope items s => ⟨_, rfl, .quoted items⟩,
    fun written m made => ⟨made.keys, ?_, fun more => made.assoc_spread, ?_⟩,
    fun _ _ _ _ made made' => made.same_iff made', ?_⟩
  · intro call scope items s t m evaluated
    obtain ⟨values, listed, _⟩ := Eval.curly_ok evaluated
    exact ⟨values, listed, .literal listed evaluated⟩
  · exact fun key default => ⟨made.get key nil, made.get key default⟩
  · intro key value
    obtain ⟨m', called, made'⟩ := made.assoc_spread (List.cons_ne_nil (key, value) [])
    refine ⟨m', called, fun other default => ?_⟩
    rw [made'.get, made.get, last?_append, last?_singleton]
    split <;> rfl
  · intro base left right m m' perm distinct made made'
    obtain rfl : m = m' := made.ext made' fun key => by
      rw [last?_append, last?_append, last?_perm perm distinct]
    exact ⟨same_refl m, rfl⟩

/-- A literal with a keyword and the string of the same name, and two ways to write a new value and a new key. -/
theorem maps_canonical_rewritten :
    ∃ m one two : Value,
      (Eval.form (Eval.applyAt 0) 0 (.group .curly [.atom (.string "a"), .atom .nil, .atom (.keyword "b"),
        .atom (.bool true), .atom (.keyword "a"), .atom .nil])).run.run .empty = (.ok m, .empty) ∧
      Compute.assoc [m, .keyword "a", .bool false, .string "B", .nil] = .ok one ∧
      (Compute.assoc [m, .string "B", .nil] >>= fun inner =>
        Compute.assoc [inner, .keyword "a", .bool false]) = .ok two ∧
      Compute.keys [one] = .ok (.list [.keyword "a", .keyword "b", .string "B", .string "a"]) ∧
      Compute.get [one, .keyword "a"] = .ok (.bool false) ∧ one.same two = true ∧ one.render = two.render := by
  obtain ⟨literals, _, made, _, orders⟩ := maps_canonical
  obtain ⟨_, listed, first⟩ := literals (Eval.applyAt 0) 0 [.atom (.string "a"), .atom .nil, .atom (.keyword "b"),
    .atom (.bool true), .atom (.keyword "a"), .atom .nil] .empty .empty _ rfl
  cases listed
  have one := first.assoc (show Compute.assoc [_, .keyword "a", .bool false, .string "B", .nil] = .ok _ from rfl)
  have two := (first.assoc (show Compute.assoc [_, .string "B", .nil] = .ok _ from rfl)).assoc
    (show Compute.assoc [_, .keyword "a", .bool false] = .ok _ from rfl)
  have swapped : [(Key.keyword "a", bool false), (.string "B", nil)].Perm
      [(.string "B", nil), (.keyword "a", bool false)] := .swap _ _ _
  exact ⟨_, _, _, rfl, rfl, rfl, rfl, ((made _ _ one).2.1 (.keyword "a") nil).1,
    orders _ _ _ _ _ swapped (by decide) one two⟩

end Value

end Exemplar
