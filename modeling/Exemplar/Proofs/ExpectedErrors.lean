import Exemplar.ErrorSpec
import Exemplar.Proofs.ReadBack

/-!
# Expected errors as programs

The shorthand for an expected error holds any characters. The expression made of it is one call whose arguments are
string literals, and these read back as the name and the message of the shorthand, so that evaluation builds the very
error that was written.
-/

namespace Exemplar

namespace Text

/-- `core` is `text` without the blanks around it. -/
structure Trims (text core : List Char) : Prop where
  around : ∃ left right, text = left ++ (core ++ right) ∧ (∀ c ∈ left, isBlank c = true) ∧ ∀ c ∈ right, isBlank c = true
  head : ∀ c ∈ core.head?, isBlank c = false
  last : ∀ c ∈ core.getLast?, isBlank c = false

theorem trims_trim (text : List Char) : Trims text (trim text) := by
  obtain ⟨left, cut, blankLeft⟩ := dropBlanks_cut text
  obtain ⟨right, cut', blankRight⟩ := dropBlanks_cut (dropBlanks text).reverse
  have inner : dropBlanks text = trim text ++ right.reverse := by
    rw [trim, ← List.reverse_append, ← cut', List.reverse_reverse]
  refine ⟨⟨left, right.reverse, by rw [← inner, ← cut], blankLeft, by simpa using blankRight⟩, ?_, ?_⟩
  · -- The first character of the core is that of the text without its leading blanks.
    intro c isHead
    apply @head_dropBlanks text
    rw [inner]
    cases core : trim text with
    | nil => rw [core] at isHead; cases isHead
    | cons d rest => rw [core] at isHead; exact isHead
  · intro c isLast
    rw [trim, List.getLast?_reverse] at isLast
    exact head_dropBlanks isLast

theorem Trims.prepend {text core : List Char} (trims : Trims text core) {c : Char} (blank : isBlank c = true) :
    Trims (c :: text) core := by
  obtain ⟨left, right, rfl, blankLeft, blankRight⟩ := trims.around
  exact ⟨⟨c :: left, right, rfl, List.forall_mem_cons.mpr ⟨blank, blankLeft⟩, blankRight⟩, trims.head, trims.last⟩

end Text

theorem Eval.Gives.program {form : Form} {value : Value} (gives : Gives form value) (limit : Nat) :
    (Eval.program 0 [form]).run.run (Store.standard limit) = (.ok value, Store.standard limit) := by
  have ran := gives (Store.standard limit).room (Store.standard limit) (Store.lookup_standard limit .error)
  change (body (applyAt (Store.standard limit).room) 0 .nil [form]).run.run (Store.standard limit) = _
  rw [body, run_bind, ran]
  dsimp only
  rw [body]
  rfl

namespace ErrorSpec

/-! ## The shorthand -/

theorem dropSpace_append (name after : List Char) : dropSpace (name ++ ':' :: after) = dropSpace name ++ ':' :: after := by
  cases name with
  | nil => rfl
  | cons c rest =>
      by_cases space : c = ' '
      · subst space
        rfl
      · simp [dropSpace, space]

theorem dropSpace_cases (text : List Char) : text = dropSpace text ∨ text = ' ' :: dropSpace text := by
  unfold dropSpace
  split
  · exact .inr rfl
  · exact .inl rfl

theorem mem_dropSpace {c : Char} (noSpace : c ≠ ' ') (text : List Char) : c ∈ dropSpace text ↔ c ∈ text := by
  rcases dropSpace_cases text with same | spaced
  · rw [← same]
  · rw [spaced, List.mem_cons, ← spaced]
    simp [noSpace]

theorem trims_dropSpace (name : List Char) : Text.Trims name (Text.trim (dropSpace name)) := by
  have trims := Text.trims_trim (dropSpace name)
  rcases dropSpace_cases name with same | spaced
  · rw [← same] at trims ⊢
    exact trims
  · have prepended := trims.prepend (show Text.isBlank ' ' = true from rfl)
    rwa [← spaced] at prepended

variable {name : List Char}

theorem ne_colon (noColon : ':' ∉ name) : ∀ c ∈ name, (c != ':') = true := by
  intro c member
  rw [bne_iff_ne]
  rintro rfl
  exact noColon member

theorem dropSpace_plain (noColon : ':' ∉ name) : ∀ c ∈ dropSpace name, (c != ':') = true :=
  ne_colon (mt (mem_dropSpace (by decide) name).mp noColon)

theorem ofText_name (noColon : ':' ∉ name) : ofText? ('!' :: name) = some ⟨Text.trim (dropSpace name), none⟩ := by
  have plain := dropSpace_plain noColon
  have whole : (dropSpace name).takeWhile (· != ':') = dropSpace name := List.takeWhile_eq_self_iff.mpr plain
  have nothing : (dropSpace name).dropWhile (· != ':') = [] := List.dropWhile_eq_nil_iff.mpr plain
  simp only [ofText?, whole, nothing]

theorem ofText_message (noColon : ':' ∉ name) (after : List Char) :
    ofText? ('!' :: (name ++ ':' :: after)) =
      if '\n' ∈ after then none else some ⟨Text.trim (dropSpace name), some (dropSpace after)⟩ := by
  have plain := dropSpace_plain noColon
  have before : (dropSpace name ++ ':' :: after).takeWhile (· != ':') = dropSpace name := by
    rw [List.takeWhile_append_of_pos plain]
    simp
  have behind : (dropSpace name ++ ':' :: after).dropWhile (· != ':') = ':' :: after := by
    rw [List.dropWhile_append_of_pos plain]
    simp
  simp only [ofText?, dropSpace_append, before, behind, List.contains_iff_mem]
  simp only [mem_dropSpace (show '\n' ≠ ' ' by decide)]

theorem ofText_isSome_iff (text : List Char) :
    (ofText? text).isSome = true ↔ text.head? = some '!' ∧ '\n' ∉ text.dropWhile (· != ':') := by
  cases text with
  | nil => simp [ofText?]
  | cons c rest =>
      by_cases bang : c = '!'
      · subst bang
        by_cases colon : ':' ∈ rest
        · obtain ⟨name, after, rfl, noColon⟩ := List.eq_append_cons_of_mem colon
          have before : ∀ c ∈ '!' :: name, (c != ':') = true := ne_colon (by simp [noColon])
          have behind : ('!' :: (name ++ ':' :: after)).dropWhile (· != ':') = ':' :: after := by
            rw [← List.cons_append, List.dropWhile_append_of_pos before]
            simp
          rw [ofText_message noColon, behind]
          by_cases broken : '\n' ∈ after <;> simp [broken]
        · have nothing : ('!' :: rest).dropWhile (· != ':') = [] :=
            List.dropWhile_eq_nil_iff.mpr (ne_colon (by simp [colon]))
          rw [ofText_name colon, nothing]
          simp
      · simp [ofText?, bang]

/-! ## The expression -/

/-- The call that builds an error with a name and, when it is given, a message. -/
def call (name : List Char) (message : Option (List Char)) : Form :=
  .group .round (.atom (.symbol "error") :: .atom (.string (String.ofList name)) ::
    message.toList.map fun text => .atom (.string (String.ofList text)))

/-- The code is one call, which in a fresh standard scope gives the error with this name and with this message, or with
an empty one when there is none. -/
structure Builds (code name : List Char) (message : Option (List Char)) : Prop where
  read : Form.read (String.ofList code) = .ok [call name message]
  value : ∀ limit, (Eval.program 0 [call name message]).run.run (Store.standard limit) =
    (.ok (.error (String.ofList name) (String.ofList (message.getD []))), Store.standard limit)

theorem spells_literal (text : List Char) : Form.Spells (literal text) [.atom (.string (String.ofList text))] := by
  have quoted := Form.Spells.quote (String.ofList text)
  rwa [Text.quote, String.toList_ofList, String.toList_ofList] at quoted

theorem spells_expression (spec : ErrorSpec) : Form.Spells spec.expression [call spec.name spec.message] := by
  obtain ⟨name, message⟩ := spec
  have head : Form.Spells "error".toList [.atom (.symbol "error")] := .word rfl (by decide) (List.all_eq_true.mp rfl)
  have named := head.append_space (spells_literal name)
  cases message with
  | none => exact named.group .round (by simp)
  | some message =>
      have whole := (named.append_space (spells_literal message)).group .round (by simp)
      simpa [expression, call, Bracket.opening, Bracket.closing] using whole

theorem gives_call (name : List Char) (message : Option (List Char)) :
    Eval.Gives (call name message) (.error (String.ofList name) (String.ofList (message.getD []))) := by
  cases message with
  | none => exact Eval.gives_error (.cons (Eval.gives_string _) .nil) rfl
  | some message => exact Eval.gives_error (.cons (Eval.gives_string _) (.cons (Eval.gives_string _) .nil)) rfl

theorem expression_builds (spec : ErrorSpec) : Builds spec.expression spec.name spec.message :=
  ⟨(spells_expression spec).read, (gives_call spec.name spec.message).program⟩

/-- Every text in quotes reads back. A text is the shorthand for an expected error when it begins with an exclamation
mark and is one line behind its first colon; its expression then builds the error that the shorthand names. -/
theorem expression_embeds :
    (∀ text : String, Form.read (Text.quote text) = .ok [.atom (.string text)]) ∧
    ∀ text : List Char,
      ((ofText? text).isSome = true ↔ text.head? = some '!' ∧ '\n' ∉ text.dropWhile (· != ':')) ∧
      ∀ spec, ofText? text = some spec →
        (∀ name, ':' ∉ name → text = '!' :: name →
          ∃ core, Text.Trims name core ∧ Builds spec.expression core none) ∧
        ∀ name after, ':' ∉ name → text = '!' :: (name ++ ':' :: after) →
          ∃ core, Text.Trims name core ∧ Builds spec.expression core (some (dropSpace after)) := by
  refine ⟨fun text => ?_, fun text => ⟨ofText_isSome_iff text, fun spec found => ⟨?_, ?_⟩⟩⟩
  · have read := (Form.Spells.quote text).read
    rwa [String.ofList_toList] at read
  · rintro name noColon rfl
    rw [ofText_name noColon] at found
    obtain rfl := Option.some.inj found
    exact ⟨_, trims_dropSpace name, expression_builds _⟩
  · rintro name after noColon rfl
    rw [ofText_message noColon] at found
    split at found
    · cases found
    · obtain rfl := Option.some.inj found
      exact ⟨_, trims_dropSpace name, expression_builds _⟩

/-- A name over two lines, and a message with marks of every kind and another colon. -/
theorem expression_embeds_marks :
    ∃ spec, ofText? "! Odd\nName :say \"\\\": #| ;\t'".toList = some spec ∧
      ∃ core, Text.Trims " Odd\nName ".toList core ∧
        Builds spec.expression core (some "say \"\\\": #| ;\t'".toList) :=
  ⟨_, rfl, (expression_embeds.2 _).2 _ rfl |>.2 " Odd\nName ".toList "say \"\\\": #| ;\t'".toList (by decide) rfl⟩

end ErrorSpec

end Exemplar
