import Exemplar.Proofs.ReadBack
import Exemplar.Proofs.Spelling

/-!
# Forms read back from their texts

Reading is the inverse of printing. The text of a form is put together from pieces that spell its parts, and each piece
ends where the next one begins: words before a space or a bracket, strings at their closing quote, groups at their
bracket. Numbers are left out, and so are strings with characters that are written by their number.
-/

namespace Exemplar

open Reader

/-! ## Quoted texts -/

/-- What is written for `c` between quotes is `c` itself, or one of the escapes that reading knows. -/
def Text.IsLegible (c : Char) : Prop :=
  escapeHidden c = [c] ∨ escapeHidden c ∈ [['\\', '"'], ['\\', '\\'], ['\\', 'n'], ['\\', 't'], ['\\', 'r']]

instance (c : Char) : Decidable (Text.IsLegible c) := inferInstanceAs (Decidable (_ ∨ _))

theorem Text.escapeHidden_of_legible {c : Char} (legible : IsLegible c) : escapeHidden c = escape c := by
  by_cases quote : c = '"'
  · subst quote; rfl
  by_cases backslash : c = '\\'
  · subst backslash; rfl
  by_cases lineFeed : c = '\n'
  · subst lineFeed; rfl
  by_cases tab : c = '\t'
  · subst tab; rfl
  by_cases carriageReturn : c = '\r'
  · subst carriageReturn; rfl
  have plain : escape c = [c] := by
    unfold escape
    split <;> first | contradiction | rfl
  unfold IsLegible at legible
  rw [plain]
  unfold escapeHidden at legible ⊢
  rw [if_neg quote, if_neg backslash, if_neg lineFeed, if_neg tab, if_neg carriageReturn] at legible ⊢
  split
  · next zero => simp [zero] at legible
  · next nonzero =>
      split
      · next hidden => simp [nonzero, hidden] at legible
      · rfl

theorem Text.quoteVisible_of_legible {text : String} (legible : ∀ c ∈ text.toList, IsLegible c) :
    quoteVisible text = quote text := by
  have same : text.toList.flatMap escapeHidden = encode text.toList :=
    List.flatMap_congr fun c member => escapeHidden_of_legible (legible c member)
  rw [quoteVisible, quote, same]

/-! ## Names -/

namespace Atom

/-- One digit or more. -/
def IsDigits (digits : List Char) : Prop := digits ≠ [] ∧ ∀ c ∈ digits, c.isDigit = true

/-- The spelling of a number: digits, perhaps behind a minus, perhaps before a point and more digits. -/
def IsNumeral (word : List Char) : Prop :=
  ∃ sign whole fraction, word = sign ++ (whole ++ fraction) ∧ (sign = [] ∨ sign = ['-']) ∧ IsDigits whole ∧
    (fraction = [] ∨ ∃ places, fraction = '.' :: places ∧ IsDigits places)

/-- A name that a symbol can have in a program: the word is taken for nothing else. -/
structure IsSymbolName (name : String) : Prop where
  begins : ∃ c rest, name.toList = c :: rest ∧ Lexeme.isSymbolStart c = true ∧ ∀ d ∈ rest, Lexeme.isSymbolChar d = true
  notNumeral : ¬ IsNumeral name.toList
  notTrue : name ≠ "true"
  notFalse : name ≠ "false"
  notNil : name ≠ "nil"

theorem isNumeral_of_number? {word : List Char} {x : Float} (spelled : number? word = some x) : IsNumeral word := by
  unfold number? at spelled
  split at spelled
  next negative magnitude sign =>
    have unsigned : ∃ whole fraction, magnitude = whole ++ fraction ∧ IsDigits whole ∧
        (fraction = [] ∨ ∃ places, fraction = '.' :: places ∧ IsDigits places) := by
      refine ⟨magnitude.takeWhile (·.isDigit), magnitude.dropWhile (·.isDigit),
        List.takeWhile_append_dropWhile.symm, ?_⟩
      have digits : ∀ c ∈ magnitude.takeWhile (·.isDigit), c.isDigit = true :=
        fun c member => List.mem_takeWhile_imp member
      dsimp only at spelled
      split at spelled
      · cases spelled
      · next nonempty =>
          refine ⟨⟨nonempty, digits⟩, ?_⟩
          split at spelled
          · next ended => exact .inl ended
          · next places behind =>
              split at spelled
              · next isPlaces => exact .inr ⟨places, behind, isPlaces.1, List.all_eq_true.mp isPlaces.2⟩
              · cases spelled
          · cases spelled
    obtain ⟨whole, fraction, rfl, isWhole, isFraction⟩ := unsigned
    split at sign
    · obtain ⟨rfl, rfl⟩ := Prod.mk.inj sign
      exact ⟨['-'], whole, fraction, rfl, .inr rfl, isWhole, isFraction⟩
    · obtain ⟨rfl, rfl⟩ := Prod.mk.inj sign
      exact ⟨[], whole, fraction, rfl, .inl rfl, isWhole, isFraction⟩

theorem IsNumeral.last_digit {word : List Char} (numeral : IsNumeral word) : ∀ c ∈ word.getLast?, c.isDigit = true := by
  obtain ⟨sign, whole, fraction, rfl, -, ⟨nonempty, digits⟩, rfl | ⟨places, rfl, some, isPlaces⟩⟩ := numeral
  · intro c last
    rw [List.append_nil, List.getLast?_append_of_ne_nil _ nonempty] at last
    exact digits c (List.mem_of_getLast? last)
  · intro c last
    have tail : sign ++ (whole ++ '.' :: places) = (sign ++ whole ++ ['.']) ++ places := by simp
    rw [tail, List.getLast?_append_of_ne_nil _ some] at last
    exact isPlaces c (List.mem_of_getLast? last)

theorem ofWord_symbol {name : String} (isName : IsSymbolName name) : ofWord? name.toList = some (.symbol name) := by
  have noNumber : number? name.toList = none := by
    cases spelled : number? name.toList with
    | none => rfl
    | some x => exact absurd (isNumeral_of_number? spelled) isName.notNumeral
  have other {word : String} (different : name ≠ word) : name.toList ≠ word.toList :=
    fun same => different (String.toList_inj.mp same)
  obtain ⟨c, rest, cut, start, -⟩ := isName.begins
  have noColon : c ≠ ':' := by
    rintro rfl
    revert start
    decide
  have same : String.ofList (c :: rest) = name := by rw [← cut, String.ofList_toList]
  unfold ofWord?
  rw [noNumber]
  dsimp only
  rw [if_neg (other isName.notTrue), if_neg (other isName.notFalse), if_neg (other isName.notNil), cut]
  split
  · next empty => cases empty
  · next colon => exact absurd (List.cons.inj colon).1 noColon
  · next first =>
      obtain ⟨rfl, rfl⟩ := List.cons.inj first
      rw [if_pos start, same]

end Atom

/-! ## Forms -/

namespace Form

theorem exists_nodes {text : String} {forms : List Form} (read : Form.read text = .ok forms) :
    ∃ nodes, Node.read text = .ok nodes ∧ Node.forms nodes = forms := by
  unfold Form.read at read
  cases found : Node.read text with
  | error fault => rw [found] at read; cases read
  | ok nodes => rw [found] at read; exact ⟨nodes, rfl, Except.ok.inj read⟩

/-- The row of one form finishes the quotation before it. -/
theorem steps_quotation {text : List Char} {form : Form} (read : Form.read (String.ofList text) = .ok [form]) :
    Outline.steps ⟨[(.quote, [])], []⟩ (Lexeme.all text) = some ⟨[], [.quote form]⟩ := by
  obtain ⟨nodes, found, isForm⟩ := exists_nodes read
  have spelled := Node.allSpelled_of_read found
  generalize Lexeme.all text = lexemes at spelled ⊢
  cases spelled with
  | nil blank => cases isForm
  | @cons node nodes _ gap own row blank first later =>
      obtain ⟨rfl, none⟩ := List.cons.inj isForm
      cases later with
      | cons => cases none
      | nil blankRest =>
          -- Where a row begins does not matter to its forms, so the mark may stand at the same byte as the row.
          have outlined := Reading.steps_outline ⟨0, [⟨.quote, 0, []⟩], []⟩ (gap ++ (own ++ row))
          rw [Reading.steps_append_ok (Reading.steps_gap _ _ _ blank), Reading.steps_append_ok (first.steps _ _),
            Reading.push, Reading.place, Reading.place, Reading.steps_gap _ _ _ blankRest] at outlined
          exact outlined.symm

/-- A quote mark before a text that spells one form spells its quotation. -/
theorem Spells.quotation {text : List Char} {form : Form} (spells : Spells text [form]) :
    Spells ('\'' :: text) [.quote form] := by
  have lexemes : Lexeme.all ('\'' :: text) = .mark '\'' :: Lexeme.all text :=
    Lexeme.all_of_opens (.mark '\'') ⟨'\'', text, rfl, rfl⟩
  refine ⟨read_ok_iff.mpr ⟨?_, ?_⟩, ?_⟩
  · rw [lexemes, Outline.steps]
    exact steps_quotation spells.read
  · have even := (read_ok_iff.mp spells.read).2
    simpa [areEven, isEven] using even
  · rw [lexemes]
    exact List.forall_mem_cons.mpr ⟨rfl, spells.uncommented⟩

/-- Forms without numbers, whose names and strings a program can write, and whose map literals pair keys with values. -/
inductive Printable : Form → Prop where
  | nil : Printable (.atom .nil)
  | bool (b : Bool) : Printable (.atom (.bool b))
  | keyword {name : String} (isName : Key.IsName name) : Printable (.atom (.keyword name))
  | symbol {name : String} (isName : Atom.IsSymbolName name) : Printable (.atom (.symbol name))
  | string {text : String} (legible : ∀ c ∈ text.toList, Text.IsLegible c) : Printable (.atom (.string text))
  | group {bracket : Bracket} {items : List Form} (each : ∀ item ∈ items, Printable item)
      (pairs : bracket = .curly → items.length % 2 = 0) : Printable (.group bracket items)
  | quote {inner : Form} (printable : Printable inner) : Printable (.quote inner)

theorem renderAll_eq (forms : List Form) : renderAll forms = " ".intercalate (forms.map render) := by
  induction forms with
  | nil => rfl
  | cons form rest ih =>
      cases rest with
      | nil => simp [renderAll]
      | cons second more =>
          have text : renderAll (form :: second :: more) = form.render ++ (" " ++ renderAll (second :: more)) := by
            simp [renderAll]
          rw [text, ih]
          simp only [List.map_cons, String.intercalate_cons_cons, String.append_assoc]

theorem spells_renderAll {forms : List Form} (each : ∀ form ∈ forms, Spells form.render.toList [form]) :
    Spells (renderAll forms).toList forms := by
  induction forms with
  | nil => exact .nothing
  | cons form rest ih =>
      obtain ⟨here, later⟩ := List.forall_mem_cons.mp each
      cases rest with
      | nil => exact here
      | cons second more =>
          have text : (renderAll (form :: second :: more)).toList =
              form.render.toList ++ ' ' :: (renderAll (second :: more)).toList := by
            simp [renderAll]
          rw [text]
          exact here.append_space (ih later)

theorem Printable.spells {form : Form} (printable : form.Printable) : Spells form.render.toList [form] := by
  induction printable with
  | nil => exact .word rfl (by decide) (List.all_eq_true.mp rfl)
  | bool b => cases b <;> exact .word rfl (by decide) (List.all_eq_true.mp rfl)
  | keyword isName => exact .keyword isName
  | @symbol name isName =>
      obtain ⟨c, rest, cut, start, symbols⟩ := isName.begins
      rw [render, Atom.render]
      refine .word (Atom.ofWord_symbol isName) (by rw [cut]; exact List.cons_ne_nil _ _) ?_
      rw [cut]
      exact List.forall_mem_cons.mpr ⟨by simp [Lexeme.isSymbolChar, start], symbols⟩
  | @string text legible =>
      rw [render, Atom.render, Text.quoteVisible_of_legible legible]
      exact .quote text
  | @group bracket items _ pairs ih =>
      have text : (render (.group bracket items)).toList =
          bracket.opening :: ((renderAll items).toList ++ [bracket.closing]) := by
        simp [render]
      rw [text]
      exact (spells_renderAll ih).group bracket pairs
  | @quote inner _ ih =>
      have text : (render (.quote inner)).toList = '\'' :: inner.render.toList := by simp [render]
      rw [text]
      exact ih.quotation

/-- Forms that can be printed are read back from their texts with single spaces between them. -/
theorem read_printed {forms : List Form} (printable : ∀ form ∈ forms, form.Printable) :
    Form.read (" ".intercalate (forms.map render)) = .ok forms := by
  have spells := spells_renderAll fun form member => (printable form member).spells
  have read := spells.read
  rwa [String.ofList_toList, renderAll_eq] at read

/-- A quoted map literal over an empty group, a word that only begins like a number, and a string full of marks. -/
theorem read_printed_quoted :
    " ".intercalate ([.quote (.group .curly [.atom (.keyword ":"), .group .round []]), .atom (.symbol "-1x"),
        .atom (.string "ü\"\\\n;")].map render) = "'\x7b:: ()\x7d -1x \"ü\\\"\\\\\\n;\"" ∧
      Form.read "'\x7b:: ()\x7d -1x \"ü\\\"\\\\\\n;\"" =
        .ok [.quote (.group .curly [.atom (.keyword ":"), .group .round []]), .atom (.symbol "-1x"),
          .atom (.string "ü\"\\\n;")] := by
  have isName : Atom.IsSymbolName "-1x" :=
    ⟨⟨'-', ['1', 'x'], rfl, rfl, List.all_eq_true.mp rfl⟩, fun numeral => by simpa using numeral.last_digit,
      by decide, by decide, by decide⟩
  have literal : Printable (.group .curly [.atom (.keyword ":"), .group .round []]) := by
    refine .group (List.forall_mem_cons.mpr ⟨.keyword ⟨by decide, List.all_eq_true.mp rfl⟩, ?_⟩) fun _ => rfl
    exact List.forall_mem_singleton.mpr (.group (by simp) (by simp))
  have legible : "ü\"\\\n;".toList.all (decide <| Text.IsLegible ·) = true := by decide +kernel
  have text : " ".intercalate ([.quote (.group .curly [.atom (.keyword ":"), .group .round []]), .atom (.symbol "-1x"),
      .atom (.string "ü\"\\\n;")].map render) = "'\x7b:: ()\x7d -1x \"ü\\\"\\\\\\n;\"" := by
    decide +kernel
  refine ⟨text, ?_⟩
  rw [← text]
  refine read_printed (List.forall_mem_cons.mpr ⟨.quote literal, List.forall_mem_cons.mpr ⟨.symbol isName, ?_⟩⟩)
  exact List.forall_mem_singleton.mpr
    (.string fun c member => of_decide_eq_true (List.all_eq_true.mp legible c member))

end Form

end Exemplar
