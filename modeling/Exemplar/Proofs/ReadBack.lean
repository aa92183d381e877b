import Exemplar.Proofs.Coinciding
import Exemplar.Proofs.ExampleCode
import Exemplar.Proofs.Scopes
import Exemplar.Proofs.Trivia
import Mathlib.Data.List.Forall2

/-!
# Values read back from their texts

The text that shows a value made of data is one form, and this form has an equal value. Texts are put together from
pieces that spell forms and hold no comments, so that each piece ends where the next one begins.
-/

namespace Exemplar

open Reader

/-! ## Texts that spell forms -/

theorem Text.closeQuote_encode (text after : List Char) :
    closeQuote (encode text ++ '"' :: after) = some (encode text, after) := by
  induction text with
  | nil => rfl
  | cons c rest ih =>
      have same : encode (c :: rest) = escape c ++ encode rest := List.flatMap_cons
      rw [same, List.append_assoc]
      unfold escape
      split
      case h_6 noQuote noBackslash _ _ _ =>
          rw [List.singleton_append, closeQuote, ih]
          · rfl
          · exact noQuote
          · exact fun _ _ backslash => absurd backslash noBackslash
          · exact fun backslash => absurd backslash noBackslash
      all_goals simp [closeQuote, ih]

namespace Form

/-- The text is a program with the given forms, and holds no comments. -/
structure Spells (text : List Char) (forms : List Form) : Prop where
  read : Form.read (String.ofList text) = .ok forms
  uncommented : ∀ lexeme ∈ Lexeme.all text, lexeme.isComment = false

namespace Spells

variable {text : List Char} {forms : List Form}

theorem nothing : Spells [] [] := ⟨rfl, fun _ member => nomatch member⟩

theorem eq_nil (spells : Spells [] forms) : forms = [] := (Except.ok.inj spells.read).symm

/-- A text that spells forms ends before any character that does not belong to words. -/
theorem lexemes_append (spells : Spells text forms) {c : Char} {after : List Char}
    (noSymbol : Lexeme.isSymbolChar c = false) :
    Lexeme.all (text ++ c :: after) = Lexeme.all text ++ Lexeme.all (c :: after) := by
  refine Lexeme.all_append (closed_of_read spells.read) fun lexeme member => ?_
  have plain := spells.uncommented lexeme (List.mem_of_getLast? member)
  cases lexeme with
  | line body => cases plain
  | word characters =>
      intro d isHead
      cases isHead
      exact noSymbol
  | _ => trivial

theorem append_space {other : List Char} {others : List Form} (spells : Spells text forms)
    (spells' : Spells other others) : Spells (text ++ ' ' :: other) (forms ++ others) := by
  have lexemes : Lexeme.all (text ++ ' ' :: other) = Lexeme.all text ++ .mark ' ' :: Lexeme.all other := by
    rw [spells.lexemes_append (by decide), Lexeme.all_space]
  obtain ⟨steps, even⟩ := read_ok_iff.mp spells.read
  refine ⟨read_ok_iff.mpr ⟨?_, ?_⟩, ?_⟩
  · rw [lexemes, Outline.steps_append, steps, List.reverse_append]
    exact steps_of_read spells'.read forms.reverse
  · rw [areEven_append, even, (read_ok_iff.mp spells'.read).2, Bool.and_self]
  · rw [lexemes]
    exact List.forall_mem_append.mpr ⟨spells.uncommented, List.forall_mem_cons.mpr ⟨rfl, spells'.uncommented⟩⟩

theorem group (spells : Spells text forms) (bracket : Bracket) (pairs : bracket = .curly → forms.length % 2 = 0) :
    Spells (bracket.opening :: (text ++ [bracket.closing])) [.group bracket forms] := by
  have first (rest : List Char) : Lexeme.all (bracket.opening :: rest) = .mark bracket.opening :: Lexeme.all rest :=
    Lexeme.all_of_opens (.mark bracket.opening) ⟨bracket.opening, rest, rfl, by cases bracket <;> rfl⟩
  have last : Lexeme.all [bracket.closing] = [.mark bracket.closing] := by cases bracket <;> rfl
  have lexemes : Lexeme.all (bracket.opening :: (text ++ [bracket.closing])) =
      .mark bracket.opening :: (Lexeme.all text ++ [.mark bracket.closing]) := by
    rw [first, spells.lexemes_append (by cases bracket <;> decide), last]
  refine ⟨read_ok_iff.mpr ⟨?_, ?_⟩, ?_⟩
  · have opening : Outline.initial.step (.mark bracket.opening) = some ⟨[(.bracket bracket, [])], []⟩ := by
      cases bracket <;> rfl
    have closing : Outline.step ⟨[(.bracket bracket, forms.reverse ++ [])], []⟩ (.mark bracket.closing) =
        some ⟨[], [.group bracket forms]⟩ := by
      rw [List.append_nil, ← List.reverse_reverse forms]
      cases bracket <;>
        simp [Outline.step, Outline.close, Outline.place, isSpace, Bracket.closing, Bracket.ofOpening?,
          Bracket.ofClosing?]
    rw [lexemes, Outline.steps, opening, Option.bind_some, Outline.steps_append,
      steps_of_read_inside spells.read bracket [] [] [], Option.bind_some, Outline.steps, closing]
    rfl
  · have even := (read_ok_iff.mp spells.read).2
    cases bracket with
    | curly => simp [areEven, isEven, even, pairs rfl]
    | _ => simp [areEven, isEven, even]
  · rw [lexemes]
    exact List.forall_mem_cons.mpr ⟨rfl, List.forall_mem_append.mpr ⟨spells.uncommented, by simp [Lexeme.isComment]⟩⟩

theorem word {a : Atom} (spelled : Atom.ofWord? text = some a) (nonempty : text ≠ [])
    (symbols : ∀ c ∈ text, Lexeme.isSymbolChar c = true) : Spells text [.atom a] := by
  have lexemes : Lexeme.all text = [.word text] := by
    have opens : (Lexeme.word text).Opens [] := Lexeme.opens_word.mpr ⟨nonempty, symbols, by simp⟩
    simpa [Lexeme.text] using Lexeme.all_of_opens _ opens
  refine ⟨read_ok_iff.mpr ⟨?_, rfl⟩, by simp [lexemes, Lexeme.isComment]⟩
  rw [lexemes, Outline.steps, Outline.step, spelled]
  rfl

theorem quote (text : String) : Spells (Text.quote text).toList [.atom (.string text)] := by
  have lexemes : Lexeme.all (Text.quote text).toList = [.string (Text.encode text.toList)] := by
    have opens : (Lexeme.string (Text.encode text.toList)).Opens [] :=
      ⟨'"', _, rfl, Lexeme.first_string.mpr ⟨rfl, [], by simpa using Text.closeQuote_encode text.toList []⟩⟩
    simpa [Lexeme.text, Text.quote] using Lexeme.all_of_opens _ opens
  refine ⟨read_ok_iff.mpr ⟨?_, rfl⟩, by simp [lexemes, Lexeme.isComment]⟩
  rw [lexemes, Outline.steps, Outline.step, Text.decode_encode, String.ofList_toList]
  rfl

end Spells

end Form

/-! ## Words that spell atoms -/

namespace Atom

/-- Numbers are written in characters of words. -/
theorem symbols_of_number {word : List Char} {x : Float} (spelled : number? word = some x) :
    word ≠ [] ∧ ∀ c ∈ word, Lexeme.isSymbolChar c = true := by
  have digit {c : Char} (isDigit : c.isDigit = true) : Lexeme.isSymbolChar c = true := by
    simp [Lexeme.isSymbolChar, isDigit]
  unfold number? at spelled
  split at spelled
  next negative magnitude sign =>
    have unsigned : magnitude ≠ [] ∧ ∀ c ∈ magnitude, Lexeme.isSymbolChar c = true := by
      have cut := List.takeWhile_append_dropWhile (p := (·.isDigit)) (l := magnitude)
      have whole : ∀ c ∈ magnitude.takeWhile (·.isDigit), Lexeme.isSymbolChar c = true :=
        fun c member => digit (List.mem_takeWhile_imp member)
      dsimp only at spelled
      split at spelled
      · cases spelled
      · next nonempty =>
          refine ⟨fun empty => nonempty (by rw [empty]; rfl), ?_⟩
          rw [← cut]
          refine List.forall_mem_append.mpr ⟨whole, ?_⟩
          split at spelled
          · next ended => simp [ended]
          · next places behind =>
              split at spelled
              · next digits =>
                  rw [behind]
                  exact List.forall_mem_cons.mpr
                    ⟨by decide, fun c member => digit (List.all_eq_true.mp digits.2 c member)⟩
              · cases spelled
          · cases spelled
    split at sign
    · obtain ⟨rfl, rfl⟩ := Prod.mk.inj sign
      exact ⟨List.cons_ne_nil _ _, List.forall_mem_cons.mpr ⟨by decide, unsigned.2⟩⟩
    · obtain ⟨rfl, rfl⟩ := Prod.mk.inj sign
      exact unsigned

theorem ofWord_keyword {name : List Char} (nonempty : name ≠ []) :
    ofWord? (':' :: name) = some (.keyword (String.ofList name)) := by
  have noNumber : number? (':' :: name) = none := rfl
  simp [ofWord?, noNumber, nonempty]

end Atom

/-! ## Values made of data -/

/-- A name that a keyword can have in a program. -/
def Key.IsName (name : String) : Prop := name ≠ "" ∧ ∀ c ∈ name.toList, Lexeme.isSymbolChar c = true

theorem Form.Spells.keyword {name : String} (isName : Key.IsName name) :
    Spells (":" ++ name).toList [.atom (.keyword name)] := by
  obtain ⟨nonempty, symbols⟩ := isName
  have some : name.toList ≠ [] := fun empty => nonempty (String.toList_eq_nil_iff.mp empty)
  have spelled := Atom.ofWord_keyword some
  rw [String.ofList_toList] at spelled
  rw [String.toList_append]
  exact .word spelled (List.cons_ne_nil _ _) (List.forall_mem_cons.mpr ⟨by decide, symbols⟩)

/-- A key that a program can write. -/
def Key.Written : Key → Prop
  | .keyword name => IsName name
  | .string _ => True

/-- Values without functions, symbols and queues, whose keywords a program can write and whose numbers are read back
from their texts. -/
inductive Value.Data : Value → Prop where
  | nil : Data .nil
  | bool (b : Bool) : Data (.bool b)
  | number {x y : Float} (shown : Atom.number? (numberStyle.show x).toList = some y)
      (equal : sameNumber y x = true) : Data (.number x)
  | string (text : String) : Data (.string text)
  | keyword {name : String} (isName : Key.IsName name) : Data (.keyword name)
  | list {items : List Value} (each : ∀ item ∈ items, Data item) : Data (.list items)
  | map {entries : List (Key × Value)} (ordered : entries.Pairwise fun first second => compare first.1 second.1 = .lt)
      (written : ∀ entry ∈ entries, entry.1.Written) (each : ∀ entry ∈ entries, Data entry.2) : Data (.map entries)
  | error (name message : String) : Data (.error name message)

namespace Eval

/-- The form has the value in every store where the name `error` has its meaning, and changes nothing. -/
def Gives (form : Form) (value : Value) : Prop :=
  ∀ room s, s.lookup? 0 Native.error.name = some (.native .error) →
    (Eval.form (applyAt room) 0 form).run.run s = (.ok value, s)

theorem gives_list {forms : List Form} {values : List Value} (each : List.Forall₂ Gives forms values) (room : Nat)
    {s : Store} (bound : s.lookup? 0 Native.error.name = some (.native .error)) :
    (list (applyAt room) 0 forms).run.run s = (.ok values, s) := by
  induction each with
  | nil => rw [list]; rfl
  | cons gives _ ih =>
      rw [list, run_bind, gives room s bound]
      dsimp only
      rw [run_bind, ih]
      rfl

theorem gives_string (text : String) : Gives (.atom (.string text)) (.string text) := fun _ _ _ => rfl

theorem gives_error {forms : List Form} {values : List Value} {value : Value} (each : List.Forall₂ Gives forms values)
    (made : Compute.error values = .ok value) : Gives (.group .round (.atom (.symbol "error") :: forms)) value := by
  intro room s bound
  have notSpecial : (Form.atom (.symbol "error")).symbol?.bind Special.ofName? = none := by decide
  have head : (form (applyAt room) 0 (.atom (.symbol "error"))).run.run s = (.ok (.native .error), s) :=
    run_symbol _ bound
  rw [form.eq_def]
  simp only [notSpecial]
  rw [run_bind, head]
  dsimp only
  rw [run_bind, gives_list each room bound]
  dsimp only
  rw [applyAt_native, Native.run, made]
  rfl

end Eval

theorem Keyed.insert_last {κ ν : Type} [Ord κ] {key : κ} (value : ν) {pairs : List (κ × ν)}
    (above : ∀ pair ∈ pairs, compare key pair.1 = .gt) : insert key value pairs = pairs ++ [(key, value)] := by
  induction pairs with
  | nil => rfl
  | cons pair rest ih =>
      obtain ⟨greater, later⟩ := List.forall_mem_cons.mp above
      rw [insert, greater]
      dsimp only
      rw [ih later, List.cons_append]

theorem Key.gt_of_lt {first second : Key} (less : compare first second = .lt) : compare second first = .gt := by
  have strings {left right : String} (less : compare left right = .lt) : compare right left = .gt :=
    Std.OrientedCmp.gt_of_lt less
  cases first with
  | keyword name =>
      cases second with
      | keyword other => exact strings less
      | string other => rfl
  | string text =>
      cases second with
      | keyword other => cases less
      | string other => exact strings less

namespace Value

/-- The text of the value is one form, which gives an equal value. -/
def ReadsBack (value : Value) : Prop :=
  ∃ form found, Form.Spells value.render.toList [form] ∧ Eval.Gives form found ∧ same found value = true

theorem readsBack_items {items : List Value} (each : ∀ item ∈ items, ReadsBack item) :
    ∃ forms found, Form.Spells (renderItems items).toList forms ∧ List.Forall₂ Eval.Gives forms found ∧
      sameItems found items = true := by
  induction items with
  | nil => exact ⟨[], [], .nothing, .nil, rfl⟩
  | cons item rest ih =>
      obtain ⟨⟨form, found, spells, gives, equal⟩, later⟩ := List.forall_mem_cons.mp each
      obtain ⟨forms, others, spellsRest, givesRest, equalRest⟩ := ih later
      refine ⟨form :: forms, found :: others, ?_, .cons gives givesRest, by simp [sameItems, equal, equalRest]⟩
      cases rest with
      | nil =>
          rw [spellsRest.eq_nil]
          exact spells
      | cons second more =>
          have text : (renderItems (item :: second :: more)).toList =
              item.render.toList ++ ' ' :: (renderItems (second :: more)).toList := by
            simp [renderItems]
          rw [text]
          exact spells.append_space spellsRest

theorem readsBack_key {key : Key} (written : key.Written) :
    ∃ a, Form.Spells key.render.toList [.atom a] ∧ Eval.Gives (.atom a) key.value := by
  cases key with
  | keyword name => exact ⟨.keyword name, .keyword written, fun _ _ _ => rfl⟩
  | string text => exact ⟨.string text, .quote text, fun _ _ _ => rfl⟩

/-- The entries behind those already written have greater keys, so that evaluation writes them in the same order. -/
theorem readsBack_entries {entries : List (Key × Value)}
    (ordered : entries.Pairwise fun first second => compare first.1 second.1 = .lt)
    (written : ∀ entry ∈ entries, entry.1.Written) (each : ∀ entry ∈ entries, ReadsBack entry.2) :
    ∃ forms found, Form.Spells (renderEntries entries).toList forms ∧ forms.length % 2 = 0 ∧
      sameEntries found entries = true ∧
      ∀ room s before, s.lookup? 0 Native.error.name = some (.native .error) →
        (∀ entry ∈ entries, ∀ other ∈ before, compare entry.1 other.1 = .gt) →
        (Eval.entries (Eval.applyAt room) 0 before forms).run.run s = (.ok (before ++ found), s) := by
  induction entries with
  | nil =>
      refine ⟨[], [], .nothing, rfl, rfl, fun room s before _ _ => ?_⟩
      rw [Eval.entries, List.append_nil]
      rfl
  | cons entry rest ih =>
      obtain ⟨key, value⟩ := entry
      obtain ⟨isKey, writtenRest⟩ := List.forall_mem_cons.mp written
      obtain ⟨⟨form, found, spells, gives, equal⟩, eachRest⟩ := List.forall_mem_cons.mp each
      obtain ⟨below, orderedRest⟩ := List.pairwise_cons.mp ordered
      obtain ⟨forms, others, spellsRest, even, equalRest, givesRest⟩ := ih orderedRest writtenRest eachRest
      obtain ⟨a, spellsKey, givesKey⟩ := readsBack_key isKey
      have spellsEntry := spellsKey.append_space spells
      refine ⟨.atom a :: form :: forms, (key, found) :: others, ?_, ?_, ?_, ?_⟩
      · cases rest with
        | nil =>
            rw [spellsRest.eq_nil]
            simpa [renderEntries] using spellsEntry
        | cons second more =>
            have text : (renderEntries ((key, value) :: second :: more)).toList =
                (key.render.toList ++ ' ' :: value.render.toList) ++ ' ' :: (renderEntries (second :: more)).toList := by
              simp [renderEntries]
            rw [text]
            exact spellsEntry.append_space spellsRest
      · rw [List.length_cons, List.length_cons]
        omega
      · simp [sameEntries, equal, equalRest]
      · intro room s before bound above
        have isValue : key.value.key? = some key := by cases key <;> rfl
        -- The key is above those already there, so its entry is put last.
        have appended := Keyed.insert_last found (above (key, value) (by simp))
        rw [Eval.entries, Eval.run_bind, givesKey room s bound]
        dsimp only
        rw [isValue]
        dsimp only
        rw [Eval.run_bind, gives room s bound]
        dsimp only
        rw [appended, givesRest room s _ bound ?_, List.append_assoc]
        · rfl
        · intro entry member other inside
          rcases List.mem_append.mp inside with earlier | last
          · exact above entry (by simp [member]) other earlier
          · rw [List.mem_singleton.mp last]
            exact Key.gt_of_lt (below entry member)

theorem Data.readsBack {value : Value} (data : value.Data) : value.ReadsBack := by
  induction data with
  | nil => exact ⟨.atom .nil, .nil, .word rfl (by decide) (List.all_eq_true.mp rfl), fun _ _ _ => rfl, rfl⟩
  | bool b =>
      refine ⟨.atom (.bool b), .bool b, ?_, fun _ _ _ => rfl, by simp [same]⟩
      cases b <;> exact .word rfl (by decide) (List.all_eq_true.mp rfl)
  | @number x y shown equal =>
      obtain ⟨nonempty, symbols⟩ := Atom.symbols_of_number shown
      have spelled : Atom.ofWord? (numberStyle.show x).toList = some (.number y) := by simp [Atom.ofWord?, shown]
      exact ⟨.atom (.number y), .number y, .word spelled nonempty symbols, fun _ _ _ => rfl, equal⟩
  | string text => exact ⟨.atom (.string text), .string text, .quote text, fun _ _ _ => rfl, by simp [same]⟩
  | @keyword name isName =>
      obtain ⟨a, spells, gives⟩ := @readsBack_key (.keyword name) isName
      exact ⟨.atom a, .keyword name, spells, gives, by simp [same]⟩
  | @list items _ ih =>
      obtain ⟨forms, found, spells, gives, equal⟩ := readsBack_items ih
      refine ⟨.group .square forms, .list found, ?_, fun room s bound => ?_, by rw [same, equal]⟩
      · have text : (render (.list items)).toList = '[' :: ((renderItems items).toList ++ [']']) := by simp [render]
        rw [text]
        exact spells.group .square (by simp)
      · rw [Eval.form, Eval.run_bind, Eval.gives_list gives room bound]
        rfl
  | @map entries ordered written _ ih =>
      obtain ⟨forms, found, spells, even, equal, gives⟩ := readsBack_entries ordered written ih
      refine ⟨.group .curly forms, .map found, ?_, fun room s bound => ?_, by rw [same, equal]⟩
      · have text : (render (.map entries)).toList =
            Bracket.curly.opening :: ((renderEntries entries).toList ++ [Bracket.curly.closing]) := by
          simp [render, Bracket.opening, Bracket.closing]
        rw [text]
        exact spells.group .curly fun _ => even
      · rw [Eval.form, if_pos even, Eval.run_bind, gives room s [] bound (by simp)]
        rfl
  | error name message =>
      have each : List.Forall₂ Eval.Gives _ [.string name, .string message] :=
        .cons (Eval.gives_string name) (.cons (Eval.gives_string message) .nil)
      refine ⟨_, .error name message, ?_, Eval.gives_error each rfl, by simp [same]⟩
      have head : Form.Spells "error".toList [.atom (.symbol "error")] := .word rfl (by decide) (List.all_eq_true.mp rfl)
      have text : (render (.error name message)).toList =
          '(' :: (("error".toList ++ ' ' :: (Text.quote name).toList) ++ ' ' :: (Text.quote message).toList ++ [')']) := by
        simp [render]
      rw [text]
      exact ((head.append_space (.quote name)).append_space (.quote message)).group .round (by simp)

/-- The text that shows a value made of data is a program of one form. A fresh standard scope gives it an equal value
and stays as it is. -/
theorem render_reads_back (limit : Nat) {value : Value} (data : value.Data) :
    ∃ form found, Form.read value.render = .ok [form] ∧
      (Eval.program 0 [form]).run.run (Store.standard limit) = (.ok found, Store.standard limit) ∧
      same found value = true := by
  obtain ⟨form, found, spells, gives, equal⟩ := data.readsBack
  refine ⟨form, found, ?_, ?_, equal⟩
  · have read := spells.read
    rwa [String.ofList_toList] at read
  · have ran := gives (Store.standard limit).room (Store.standard limit) (Store.lookup_standard limit .error)
    change (Eval.body (Eval.applyAt (Store.standard limit).room) 0 .nil [form]).run.run (Store.standard limit) = _
    rw [Eval.body, Eval.run_bind, ran]
    dsimp only
    rw [Eval.body]
    rfl

/-- A map under a keyword and a string full of marks, with an error in a list. -/
theorem render_reads_back_nested :
    ∃ form found,
      Form.read (map [(.keyword "a.b", .list [.bool true, .error "E" "; #|"]), (.string "\"\\\n", .nil)]).render =
          .ok [form] ∧
        (Eval.program 0 [form]).run.run Store.standard = (.ok found, Store.standard) ∧
        same found (map [(.keyword "a.b", .list [.bool true, .error "E" "; #|"]), (.string "\"\\\n", .nil)]) = true :=
  render_reads_back _ (.map (List.pairwise_pair.mpr rfl)
    (List.forall_mem_cons.mpr ⟨⟨by decide, List.all_eq_true.mp rfl⟩, List.forall_mem_singleton.mpr trivial⟩)
    (List.forall_mem_cons.mpr ⟨.list (List.forall_mem_cons.mpr ⟨.bool true, List.forall_mem_singleton.mpr (.error _ _)⟩),
      List.forall_mem_singleton.mpr .nil⟩))

end Value

end Exemplar
