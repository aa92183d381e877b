import Exemplar.Json

/-!
# JSON texts read back

A reader for JSON texts of the data that reports are made of, with blanks wherever JSON allows them. It refuses what
JSON refuses: control characters and unknown escapes in strings, numbers with leading zeros, missing or superfluous
commas. The text of a value is read as that value and nothing else.
-/

namespace Exemplar.Json

/-! ## Reading -/

/-- Blanks between the parts of a text. -/
def isBlank (c : Char) : Bool := c == ' ' || c == '\t' || c == '\r' || c == '\n'

def skip (text : List Char) : List Char := text.dropWhile isBlank

def hexDigit? (c : Char) : Option Nat :=
  if c.isDigit then some (c.toNat - 48)
  else if 'a' ≤ c ∧ c ≤ 'f' then some (c.toNat - 87)
  else if 'A' ≤ c ∧ c ≤ 'F' then some (c.toNat - 55)
  else none

/-- The character with a number of four hexadecimal digits. The numbers of surrogates are refused. -/
def ofHex? (a b c d : Char) : Option Char :=
  [a, b, c, d].mapM hexDigit? |>.bind fun digits =>
    let number := digits.foldl (16 * · + ·) 0
    if 0xd800 ≤ number ∧ number < 0xe000 then none else some (Char.ofNat number)

/-- What a character behind a backslash stands for. -/
def unescape? (c : Char) : Option Char :=
  if c = '"' ∨ c = '\\' ∨ c = '/' then some c
  else if c = 'b' then some (Char.ofNat 8)
  else if c = 'f' then some (Char.ofNat 12)
  else if c = 'n' then some '\n'
  else if c = 'r' then some '\r'
  else if c = 't' then some '\t'
  else none

/-- The characters of a string up to its closing quote, and the text behind it. -/
def readString : List Char → Option (List Char × List Char)
  | [] => none
  | '"' :: rest => some ([], rest)
  | '\\' :: 'u' :: a :: b :: c :: d :: rest =>
      (ofHex? a b c d).bind fun x => (readString rest).map fun read => (x :: read.1, read.2)
  | '\\' :: c :: rest => (unescape? c).bind fun x => (readString rest).map fun read => (x :: read.1, read.2)
  | c :: rest =>
      if c.toNat < 32 ∨ c = '\\' then none else (readString rest).map fun read => (c :: read.1, read.2)

/-- The natural number at the beginning of a text, without leading zeros, and the text behind it. -/
def readNumber (text : List Char) : Option (Json × List Char) :=
  let digits := text.takeWhile (·.isDigit)
  if digits = [] ∨ (digits.head? = some '0' ∧ digits ≠ ['0']) then none
  else some (nat (Nat.ofDigitChars 10 digits 0), text.dropWhile (·.isDigit))

mutual

/-- The value at the beginning of a text, and the text behind it. Each part of a value takes one of `fuel`. -/
def readValue : (fuel : Nat) → List Char → Option (Json × List Char)
  | 0, _ => none
  | fuel + 1, text =>
      match skip text with
      | '"' :: rest => (readString rest).map fun read => (string (String.ofList read.1), read.2)
      | '[' :: rest =>
          if (skip rest).head? = some ']' then some (array [], (skip rest).tail)
          else
            (readValue fuel rest).bind fun first =>
              (readItems fuel first.2).map fun more => (array (first.1 :: more.1), more.2)
      | '{' :: rest =>
          if (skip rest).head? = some '}' then some (object [], (skip rest).tail)
          else
            (readField fuel rest).bind fun first =>
              (readFields fuel first.2).map fun more => (object (first.1 :: more.1), more.2)
      | 't' :: 'r' :: 'u' :: 'e' :: rest => some (bool true, rest)
      | 'f' :: 'a' :: 'l' :: 's' :: 'e' :: rest => some (bool false, rest)
      | other => readNumber other

/-- Further items of an array up to its closing bracket. -/
def readItems : (fuel : Nat) → List Char → Option (List Json × List Char)
  | 0, _ => none
  | fuel + 1, text =>
      match skip text with
      | ']' :: rest => some ([], rest)
      | ',' :: rest =>
          (readValue fuel rest).bind fun next =>
            (readItems fuel next.2).map fun more => (next.1 :: more.1, more.2)
      | _ => none

/-- A name, a colon and a value. -/
def readField : (fuel : Nat) → List Char → Option ((String × Json) × List Char)
  | 0, _ => none
  | fuel + 1, text =>
      match skip text with
      | '"' :: rest =>
          (readString rest).bind fun name =>
            match skip name.2 with
            | ':' :: rest => (readValue fuel rest).map fun value => ((String.ofList name.1, value.1), value.2)
            | _ => none
      | _ => none

/-- Further fields of an object up to its closing brace. -/
def readFields : (fuel : Nat) → List Char → Option (List (String × Json) × List Char)
  | 0, _ => none
  | fuel + 1, text =>
      match skip text with
      | '}' :: rest => some ([], rest)
      | ',' :: rest =>
          (readField fuel rest).bind fun next =>
            (readFields fuel next.2).map fun more => (next.1 :: more.1, more.2)
      | _ => none

end

/-- The value of a text that holds nothing else. -/
def read? (text : String) : Option Json :=
  (readValue text.toList.length text.toList).bind fun read => if skip read.2 = [] then some read.1 else none

/-! ## Strings and numbers -/

theorem ofHex?_hexByte :
    ∀ n < 32, ofHex? '0' '0' (Nat.digitChar (n / 16)) (Nat.digitChar (n % 16)) = some (Char.ofNat n) := by
  decide

theorem readString_escape (c : Char) (rest : List Char) :
    readString (escape c ++ rest) = (readString rest).map fun read => (c :: read.1, read.2) := by
  by_cases quote : c = '"'
  · subst quote; rfl
  by_cases backslash : c = '\\'
  · subst backslash; rfl
  by_cases lineFeed : c = '\n'
  · subst lineFeed; rfl
  by_cases carriageReturn : c = '\r'
  · subst carriageReturn; rfl
  by_cases tab : c = '\t'
  · subst tab; rfl
  have same : Char.ofNat c.toNat = c := Char.ofNat_toNat c
  unfold escape
  rw [if_neg quote, if_neg backslash, if_neg lineFeed, if_neg carriageReturn, if_neg tab]
  split
  · next backspace => rw [← same, backspace]; rfl
  split
  · next formFeed => rw [← same, formFeed]; rfl
  split
  · next control =>
      have hex := ofHex?_hexByte c.toNat control
      rw [same] at hex
      simp only [hexByte, List.cons_append, List.nil_append, readString, hex, Option.bind_some]
  · next plain =>
      have noControl : ¬ (c.toNat < 32 ∨ c = '\\') := not_or.mpr ⟨plain, backslash⟩
      rw [List.singleton_append, readString, if_neg noControl]
      · exact quote
      · exact fun _ _ _ _ _ isBackslash => absurd isBackslash backslash
      · exact fun _ _ isBackslash => absurd isBackslash backslash

theorem readString_quote (text : String) (rest : List Char) :
    readString (text.toList.flatMap escape ++ '"' :: rest) = some (text.toList, rest) := by
  induction text.toList with
  | nil => rfl
  | cons c more ih => rw [List.flatMap_cons, List.append_assoc, readString_escape, ih, Option.map_some]

/-- Only zero is written with a leading zero. -/
theorem toDigits_zero_head {n : Nat} (leads : (Nat.toDigits 10 n).head? = some '0') : n = 0 := by
  induction n using Nat.strongRecOn with
  | ind n ih =>
      by_cases small : n < 10
      · have single : ∀ n < 10, [Nat.digitChar n].head? = some '0' → n = 0 := by decide
        rw [Nat.toDigits_of_lt_base small] at leads
        exact single n small leads
      · rw [Nat.toDigits_of_base_le (by decide) (Nat.not_lt.mp small), List.head?_append,
          List.head?_eq_some_head Nat.toDigits_ne_nil, Option.some_or, ← List.head?_eq_some_head] at leads
        have zero := ih (n / 10) (by omega) leads
        omega

theorem readNumber_toDigits (n : Nat) {rest : List Char} (ends : ∀ c ∈ rest.head?, c.isDigit = false) :
    readNumber (Nat.toDigits 10 n ++ rest) = some (nat n, rest) := by
  have digits : ∀ c ∈ Nat.toDigits 10 n, c.isDigit = true :=
    fun _ member => Nat.isDigit_of_mem_toDigits (by decide) (by decide) member
  have behind : rest.takeWhile (·.isDigit) = [] ∧ rest.dropWhile (·.isDigit) = rest := by
    cases rest with
    | nil => exact ⟨rfl, rfl⟩
    | cons c more => simp [ends c rfl]
  have proper : ¬ (Nat.toDigits 10 n = [] ∨ ((Nat.toDigits 10 n).head? = some '0' ∧ Nat.toDigits 10 n ≠ ['0'])) := by
    rintro (empty | ⟨leads, long⟩)
    · exact Nat.toDigits_ne_nil empty
    · rw [toDigits_zero_head leads] at long
      exact long rfl
  unfold readNumber
  dsimp only
  rw [List.takeWhile_append_of_pos digits, List.dropWhile_append_of_pos digits, behind.1, behind.2, List.append_nil,
    if_neg proper, Nat.ofDigitChars_ten_toDigits]

/-! ## Values -/

theorem skip_lineBreak (level : Nat) (text : List Char) : skip ((lineBreak level).toList ++ text) = skip text := by
  have blanks : ∀ c ∈ (lineBreak level).toList, isBlank c = true := by
    simp [lineBreak, isBlank]
  exact List.dropWhile_append_of_pos blanks

theorem skip_of_not_blank {c : Char} (noBlank : isBlank c = false) (rest : List Char) :
    skip (c :: rest) = c :: rest := by
  rw [skip, List.dropWhile_cons, noBlank]
  rfl

theorem toList_quote (text : String) : (quote text).toList = '"' :: (text.toList.flatMap escape ++ ['"']) := by
  simp [quote]

theorem toList_array (level : Nat) (item : Json) (rest : List Json) :
    (render level (array (item :: rest))).toList = '[' :: ((lineBreak (level + 1)).toList ++
      ((render (level + 1) item).toList ++ ((renderItems (level + 1) rest).toList ++
        ((lineBreak level).toList ++ [']'])))) := by
  simp [render]

theorem toList_object (level : Nat) (name : String) (value : Json) (rest : List (String × Json)) :
    (render level (object ((name, value) :: rest))).toList = '{' :: ((lineBreak (level + 1)).toList ++
      ((quote name).toList ++ (':' :: ' ' :: ((render (level + 1) value).toList ++
        ((renderFields (level + 1) rest).toList ++ ((lineBreak level).toList ++ ['}'])))))) := by
  simp [render]

theorem toList_items (level : Nat) (item : Json) (rest : List Json) :
    (renderItems level (item :: rest)).toList =
      ',' :: ((lineBreak level).toList ++ ((render level item).toList ++ (renderItems level rest).toList)) := by
  simp [renderItems]

theorem toList_fields (level : Nat) (name : String) (value : Json) (rest : List (String × Json)) :
    (renderFields level ((name, value) :: rest)).toList = ',' :: ((lineBreak level).toList ++ ((quote name).toList ++
      (':' :: ' ' :: ((render level value).toList ++ (renderFields level rest).toList)))) := by
  simp [renderFields]

theorem not_blank_of_digit {c : Char} (digit : c.isDigit = true) : isBlank c = false := by
  cases blank : isBlank c with
  | false => rfl
  | true =>
      simp only [isBlank, Bool.or_eq_true, beq_iff_eq] at blank
      rcases blank with ((rfl | rfl) | rfl) | rfl <;> cases digit

/-- The text of a value begins with a character that is no blank and closes nothing. -/
theorem render_head (level : Nat) (value : Json) :
    ∃ c rest, (render level value).toList = c :: rest ∧ isBlank c = false ∧ c ≠ ']' := by
  cases value with
  | bool b => cases b <;> simp [render, isBlank]
  | nat n =>
      obtain ⟨c, rest, cut⟩ := List.exists_cons_of_ne_nil (@Nat.toDigits_ne_nil n 10)
      have member : c ∈ Nat.toDigits 10 n := by rw [cut]; exact List.mem_cons_self
      have digit : c.isDigit = true := Nat.isDigit_of_mem_toDigits (by decide) (by decide) member
      refine ⟨c, rest, ?_, not_blank_of_digit digit, by rintro rfl; cases digit⟩
      rw [render, Nat.toString_eq_ofList_toDigits, String.toList_ofList, cut]
  | string text => exact ⟨'"', _, by rw [render, toList_quote], by decide, by decide⟩
  | array items =>
      cases items with
      | nil => simp [render, isBlank]
      | cons item rest => exact ⟨'[', _, toList_array level item rest, by decide, by decide⟩
  | object fields =>
      cases fields with
      | nil => simp [render, isBlank]
      | cons field rest => exact ⟨'{', _, toList_object level field.1 field.2 rest, by decide, by decide⟩

theorem readValue_lineBreak (fuel level : Nat) (text : List Char) :
    readValue fuel ((lineBreak level).toList ++ text) = readValue fuel text := by
  cases fuel with
  | zero => rw [readValue, readValue]
  | succ fuel => rw [readValue, readValue, skip_lineBreak]

theorem readField_lineBreak (fuel level : Nat) (text : List Char) :
    readField fuel ((lineBreak level).toList ++ text) = readField fuel text := by
  cases fuel with
  | zero => rw [readField, readField]
  | succ fuel => rw [readField, readField, skip_lineBreak]

theorem readValue_bracket (fuel : Nat) (rest : List Char) :
    readValue (fuel + 1) ('[' :: rest) =
      if (skip rest).head? = some ']' then some (array [], (skip rest).tail)
      else
        (readValue fuel rest).bind fun first =>
          (readItems fuel first.2).map fun more => (array (first.1 :: more.1), more.2) := by
  rw [readValue, skip_of_not_blank (by decide)]
  rfl

theorem readValue_brace (fuel : Nat) (rest : List Char) :
    readValue (fuel + 1) ('{' :: rest) =
      if (skip rest).head? = some '}' then some (object [], (skip rest).tail)
      else
        (readField fuel rest).bind fun first =>
          (readFields fuel first.2).map fun more => (object (first.1 :: more.1), more.2) := by
  rw [readValue, skip_of_not_blank (by decide)]
  rfl

theorem readItems_comma (fuel : Nat) (rest : List Char) :
    readItems (fuel + 1) (',' :: rest) =
      (readValue fuel rest).bind fun next => (readItems fuel next.2).map fun more => (next.1 :: more.1, more.2) := by
  rw [readItems, skip_of_not_blank (by decide)]
  rfl

theorem readFields_comma (fuel : Nat) (rest : List Char) :
    readFields (fuel + 1) (',' :: rest) =
      (readField fuel rest).bind fun next => (readFields fuel next.2).map fun more => (next.1 :: more.1, more.2) := by
  rw [readFields, skip_of_not_blank (by decide)]
  rfl

theorem items_head (items : List Json) (level outer : Nat) (rest : List Char) :
    ∀ c ∈ ((renderItems level items).toList ++ ((lineBreak outer).toList ++ rest)).head?, c.isDigit = false := by
  cases items with
  | nil => simp [renderItems, lineBreak]
  | cons item items => simp [toList_items]

theorem fields_head (fields : List (String × Json)) (level outer : Nat) (rest : List Char) :
    ∀ c ∈ ((renderFields level fields).toList ++ ((lineBreak outer).toList ++ rest)).head?, c.isDigit = false := by
  cases fields with
  | nil => simp [renderFields, lineBreak]
  | cons field fields => simp [toList_fields level field.1 field.2]

-- Every call of the reader has one `fuel` less and at least one character less, so the induction is on `fuel`.
mutual

/-- The text of a value is read as the value, with `fuel` for every character and no digit behind it. -/
theorem readValue_render (value : Json) (level : Nat) {fuel : Nat} {rest : List Char}
    (enough : ((render level value).toList ++ rest).length ≤ fuel) (ends : ∀ c ∈ rest.head?, c.isDigit = false) :
    readValue fuel ((render level value).toList ++ rest) = some (value, rest) := by
  obtain ⟨c, more, cut, noBlank, -⟩ := render_head level value
  cases fuel with
  | zero => simp [cut] at enough
  | succ fuel =>
      cases value with
      | bool b => cases b <;> simp [render, readValue, skip, isBlank]
      | nat n =>
          have digits : (render level (nat n)).toList = Nat.toDigits 10 n := by
            rw [render, Nat.toString_eq_ofList_toDigits, String.toList_ofList]
          rw [digits] at cut ⊢
          have digit : c.isDigit = true :=
            Nat.isDigit_of_mem_toDigits (by decide) (Nat.le_refl 10) (cut ▸ List.mem_cons_self)
          have number := readNumber_toDigits n ends
          rw [cut, List.cons_append] at number ⊢
          rw [readValue, skip_of_not_blank noBlank]
          split
          case h_6 => exact number
          all_goals next same => cases (List.cons.inj same).1; cases digit
      | string text =>
          rw [render, toList_quote, List.cons_append, List.append_assoc, readValue, skip_of_not_blank (by decide)]
          simp [readString_quote]
      | array items =>
          cases items with
          | nil => simp [render, readValue, skip, isBlank]
          | cons item items =>
              rw [toList_array] at enough ⊢
              simp only [List.cons_append, List.append_assoc, List.length_cons, List.nil_append,
                List.length_append] at enough ⊢
              -- The first item does not begin like the end of the array, so the array is not taken for an empty one.
              obtain ⟨d, others, opening, noBlank', notClosing⟩ := render_head (level + 1) item
              have noBracket (behind : List Char) :
                  (skip ((render (level + 1) item).toList ++ behind)).head? ≠ some ']' := by
                rw [opening, List.cons_append, skip_of_not_blank noBlank', List.head?_cons]
                simpa using notClosing
              have later : readItems fuel ((renderItems (level + 1) items).toList ++
                  ((lineBreak level).toList ++ ']' :: rest)) = some (items, rest) :=
                readItems_render items (level + 1) level (by simp only [List.length_append, List.length_cons]; omega)
              have first := readValue_render item (level + 1)
                (show ((render (level + 1) item).toList ++ ((renderItems (level + 1) items).toList ++
                  ((lineBreak level).toList ++ ']' :: rest))).length ≤ fuel by
                    simp only [List.length_append, List.length_cons]; omega) (items_head items _ _ _)
              rw [readValue_bracket, skip_lineBreak, if_neg (noBracket _), readValue_lineBreak, first, Option.bind_some,
                later, Option.map_some]
      | object fields =>
          cases fields with
          | nil => simp [render, readValue, skip, isBlank]
          | cons field fields =>
              obtain ⟨name, value⟩ := field
              rw [toList_object] at enough ⊢
              simp only [List.cons_append, List.append_assoc, List.length_cons, List.nil_append,
                List.length_append] at enough ⊢
              have noBrace (behind : List Char) : (skip ((quote name).toList ++ behind)).head? ≠ some '}' := by
                rw [toList_quote, List.cons_append, skip_of_not_blank (by decide)]
                simp
              have later : readFields fuel ((renderFields (level + 1) fields).toList ++
                  ((lineBreak level).toList ++ '}' :: rest)) = some (fields, rest) :=
                readFields_render fields (level + 1) level (by simp only [List.length_append, List.length_cons]; omega)
              have first := readField_render name value (level + 1)
                (show ((quote name).toList ++ ':' :: ' ' :: ((render (level + 1) value).toList ++
                  ((renderFields (level + 1) fields).toList ++
                    ((lineBreak level).toList ++ '}' :: rest)))).length ≤ fuel by
                    simp only [List.length_append, List.length_cons]; omega) (fields_head fields _ _ _)
              rw [readValue_brace, skip_lineBreak, if_neg (noBrace _), readField_lineBreak, first, Option.bind_some,
                later, Option.map_some]
termination_by fuel
decreasing_by all_goals omega

theorem readItems_render (items : List Json) (level outer : Nat) {fuel : Nat} {rest : List Char}
    (enough : ((renderItems level items).toList ++ ((lineBreak outer).toList ++ ']' :: rest)).length ≤ fuel) :
    readItems fuel ((renderItems level items).toList ++ ((lineBreak outer).toList ++ ']' :: rest)) =
      some (items, rest) := by
  cases fuel with
  | zero => simp at enough
  | succ fuel =>
      cases items with
      | nil =>
          rw [renderItems, readItems]
          simp only [String.toList_empty, List.nil_append]
          rw [skip_lineBreak, skip_of_not_blank (by decide)]
          rfl
      | cons item items =>
          rw [toList_items] at enough ⊢
          simp only [List.cons_append, List.append_assoc, List.length_cons, List.length_append] at enough ⊢
          have later : readItems fuel ((renderItems level items).toList ++ ((lineBreak outer).toList ++ ']' :: rest)) =
              some (items, rest) :=
            readItems_render items level outer (by simp only [List.length_append, List.length_cons]; omega)
          have next := readValue_render item level
            (show ((render level item).toList ++ ((renderItems level items).toList ++
              ((lineBreak outer).toList ++ ']' :: rest))).length ≤ fuel by
                simp only [List.length_append, List.length_cons]; omega) (items_head items _ _ _)
          rw [readItems_comma, readValue_lineBreak, next, Option.bind_some, later, Option.map_some]
termination_by fuel
decreasing_by all_goals omega

theorem readField_render (name : String) (value : Json) (level : Nat) {fuel : Nat} {rest : List Char}
    (enough : ((quote name).toList ++ ':' :: ' ' :: ((render level value).toList ++ rest)).length ≤ fuel)
    (ends : ∀ c ∈ rest.head?, c.isDigit = false) :
    readField fuel ((quote name).toList ++ ':' :: ' ' :: ((render level value).toList ++ rest)) =
      some ((name, value), rest) := by
  cases fuel with
  | zero => simp at enough
  | succ fuel =>
      have blank : readValue fuel (' ' :: ((render level value).toList ++ rest)) =
          readValue fuel ((render level value).toList ++ rest) := by
        cases fuel with
        | zero => rw [readValue, readValue]
        | succ fuel => rw [readValue, readValue]; rfl
      simp only [List.length_append, List.length_cons] at enough
      have found := readValue_render value level
        (show ((render level value).toList ++ rest).length ≤ fuel by simp only [List.length_append]; omega) ends
      rw [toList_quote, List.cons_append, List.append_assoc, readField, skip_of_not_blank (by decide)]
      simp only [List.singleton_append, readString_quote, Option.bind_some]
      rw [skip_of_not_blank (by decide)]
      simp only [blank, found, Option.map_some, String.ofList_toList]
termination_by fuel
decreasing_by all_goals omega

theorem readFields_render (fields : List (String × Json)) (level outer : Nat) {fuel : Nat} {rest : List Char}
    (enough : ((renderFields level fields).toList ++ ((lineBreak outer).toList ++ '}' :: rest)).length ≤ fuel) :
    readFields fuel ((renderFields level fields).toList ++ ((lineBreak outer).toList ++ '}' :: rest)) =
      some (fields, rest) := by
  cases fuel with
  | zero => simp at enough
  | succ fuel =>
      cases fields with
      | nil =>
          rw [renderFields, readFields]
          simp only [String.toList_empty, List.nil_append]
          rw [skip_lineBreak, skip_of_not_blank (by decide)]
          rfl
      | cons field fields =>
          obtain ⟨name, value⟩ := field
          rw [toList_fields] at enough ⊢
          simp only [List.cons_append, List.append_assoc, List.length_cons, List.length_append] at enough ⊢
          have later : readFields fuel ((renderFields level fields).toList ++
              ((lineBreak outer).toList ++ '}' :: rest)) = some (fields, rest) :=
            readFields_render fields level outer (by simp only [List.length_append, List.length_cons]; omega)
          have next := readField_render name value level
            (show ((quote name).toList ++ ':' :: ' ' :: ((render level value).toList ++
              ((renderFields level fields).toList ++ ((lineBreak outer).toList ++ '}' :: rest)))).length ≤ fuel by
                simp only [List.length_append, List.length_cons]; omega) (fields_head fields _ _ _)
          rw [readFields_comma, readField_lineBreak, next, Option.bind_some, later, Option.map_some]
termination_by fuel
decreasing_by all_goals omega

end

/-- The text of a value, ended by a line break, is read as the value. -/
theorem read?_render (value : Json) : read? (value.render 0 ++ "\n") = some value := by
  have text : (value.render 0 ++ "\n").toList = (value.render 0).toList ++ ['\n'] := by simp
  have read := readValue_render value 0 (Nat.le_refl ((value.render 0).toList ++ ['\n']).length) (by simp)
  rw [read?, text, read]
  rfl

end Exemplar.Json
