import Exemplar.Proofs.ContainedExamples
import Exemplar.Proofs.ModuleText

/-!
# What a scope of its own accepts

A program and the lines around it are read as one text. The lines complete no string and no comment that the program
leaves open. They can complete a program that closes their scope and opens another group, or that ends in a quote mark.
Only a program that reads alone comes out as the body of the scope.
-/

namespace Exemplar

open Reader

namespace Reader.Outline

/-! ## Groups that are left -/

theorem close_of_turn {lexeme : Lexeme} (closing : lexeme.turn = -1) :
    ∃ bracket, ∀ outline : Outline, outline.step lexeme = outline.close bracket := by
  cases lexeme with
  | mark c =>
      rw [Lexeme.turn] at closing
      split at closing
      · cases closing
      · next noOpening =>
          split at closing
          · next isClosing =>
              obtain ⟨bracket, spelled⟩ := Option.isSome_iff_exists.mp isClosing
              have noSpace : isSpace c = false := by
                by_contra space
                simp only [isSpace, Bool.or_eq_true, beq_iff_eq, Bool.not_eq_false] at space
                rcases space with ((rfl | rfl) | rfl) | rfl <;> cases spelled
              have noQuote : c ≠ '\'' := by
                rintro rfl
                cases spelled
              refine ⟨bracket, fun outline => ?_⟩
              have opening := Option.not_isSome_iff_eq_none.mp noOpening
              simp [step, noSpace, noQuote, opening, spelled]
          · cases closing
  | _ => cases closing

variable {bracket : Bracket} {items above : List Form}

/-- Reading that leaves the group it is in adds the group to what is finished outside of it. -/
theorem done_of_escapes (outline : Outline) {final : Outline} {lexemes : List Lexeme}
    (read : (outline.within bracket items [] above).steps lexemes = some final)
    (leaves : outline.escapes lexemes = true) : above.length < final.done.length := by
  induction lexemes generalizing outline with
  | nil => cases leaves
  | cons lexeme rest ih =>
      obtain ⟨middle, first, later⟩ := Option.bind_eq_some_iff.mp read
      cases alone : outline.step lexeme with
      | some next =>
          simp only [escapes, alone] at leaves
          have same : (outline.within bracket items [] above).step lexeme = _ := step_within alone
          obtain rfl : next.within bracket items [] above = middle := Option.some.inj (same.symm.trans first)
          exact ih next later leaves
      | none =>
          simp only [escapes, alone, Bool.and_eq_true, List.isEmpty_iff, beq_iff_eq] at leaves
          obtain ⟨closing, isClose⟩ := close_of_turn leaves.2
          have last : outline.within bracket items [] above = ⟨[(.bracket bracket, outline.done ++ items)], above⟩ := by
            rw [within, leaves.1, List.nil_append]
          rw [isClose, last] at first
          dsimp only [close] at first
          split at first
          · cases first
            obtain ⟨added, frame⟩ := steps_frame later
            rw [Option.some.inj (later.symm.trans (frame _)), List.length_append, List.length_cons]
            omega
          · cases first

theorem escapes_concat_break (outline : Outline) (lexemes : List Lexeme) :
    outline.escapes (lexemes ++ [.mark '\n']) = outline.escapes lexemes := by
  induction lexemes generalizing outline with
  | nil => rfl
  | cons lexeme rest ih =>
      rw [List.cons_append]
      cases stepped : outline.step lexeme with
      | none => simp only [escapes, stepped]
      | some next =>
          simp only [escapes, stepped]
          exact ih next

theorem escapes_dropFinalBreak {text : List Char} (closed : ∀ lexeme ∈ Lexeme.all text, lexeme.isStray = false)
    (outline : Outline) :
    outline.escapes (Lexeme.all (Text.dropFinalBreak text)) = outline.escapes (Lexeme.all text) := by
  obtain ⟨tail, whole, blank⟩ := Lexeme.all_dropFinalBreak closed
  rw [whole]
  rcases blank with rfl | rfl
  · rw [List.append_nil]
  · rw [escapes_concat_break]

/-! ## Quotations with nothing in them -/

/-- Outside of every group a form is quoted as often as there are quote marks before it. -/
theorem place_flat {stack : List (Opener × List Form)} (flat : depth stack = 0) (form : Form) :
    ∃ outer, (∀ done, place form done stack = ⟨[], outer :: done⟩) ∧ outer.isEven = form.isEven ∧
      (stack = [] → outer = form) ∧ (stack ≠ [] → ∃ inner, outer = .quote inner) := by
  induction stack generalizing form with
  | nil => exact ⟨form, fun _ => rfl, rfl, fun _ => rfl, fun nonempty => absurd rfl nonempty⟩
  | cons pending rest ih =>
      obtain ⟨opener, items⟩ := pending
      cases opener with
      | bracket bracket => simp at flat
      | quote =>
          rw [depth_quote] at flat
          obtain ⟨outer, placed, even, last, more⟩ := ih flat (.quote form)
          refine ⟨outer, placed, even, fun empty => absurd empty (List.cons_ne_nil _ _), fun _ => ?_⟩
          cases rest with
          | nil => exact ⟨form, last rfl⟩
          | cons next others => exact more (List.cons_ne_nil _ _)

end Reader.Outline

namespace Envelope

variable {text : List Char}

/-- The text is a program but for quote marks at its end, which quote nothing. -/
def Dangles (text : List Char) : Prop :=
  ∃ stack forms, Outline.initial.steps (Lexeme.all text) = some ⟨stack, forms.reverse⟩ ∧ stack ≠ [] ∧
    Outline.depth stack = 0 ∧ Form.areEven forms = true

/-- The scope with the given forms in it. -/
def scopeOf (items : List Form) : Form := .group .round (.atom (.symbol "let") :: .group .round [] :: items)

/-! ## Strings and comments of the program -/

/-- A string that is open where the program ends is closed by the first quote mark behind it, and the second quote mark
there opens a string that nothing closes. -/
theorem stray_of_quote {left : List Char} (unclosed : Text.closeQuote left = none) :
    ∃ lexeme ∈ Lexeme.all ('"' :: (left ++ '\n' :: linesBehind)), lexeme.isStray = true := by
  have closed : Text.closeQuote linesBehind = some ("  nil)\n\n(export! ".toList, "__doctest\" __doctest)\n".toList) := rfl
  have ended := Text.closeQuote_break unclosed linesBehind
  rw [closed, Option.map_some] at ended
  have split := Text.closeQuote_text ended
  have opens : (Lexeme.string _).Opens "__doctest\" __doctest)\n".toList :=
    ⟨'"', _, by rw [Lexeme.text, List.cons_append, List.append_assoc, List.singleton_append, ← split],
      Lexeme.first_string.mpr ⟨rfl, _, ended⟩⟩
  have whole := Lexeme.all_of_opens _ opens
  rw [Lexeme.text, List.cons_append, List.append_assoc, List.singleton_append, ← split] at whole
  refine ⟨.mark '"', ?_, rfl⟩
  rw [whole]
  exact List.mem_cons_of_mem _ (by decide)

/-- The lines around a program complete no string or comment that it leaves open. -/
theorem closed_of_wrap {result : List Form} (read : Form.read (String.ofList (wrap .commonjs text)) = .ok result) :
    ∀ lexeme ∈ Lexeme.all (Text.dropFinalBreak text), lexeme.isStray = false := by
  have closed := Form.closed_of_read read
  rw [wrap_eq, Lexeme.all_append_break (Outline.steps_not_stray steps_before)] at closed
  have behind : ∀ lexeme ∈ Lexeme.all (Text.dropFinalBreak text ++ '\n' :: linesBehind), lexeme.isStray = false :=
    fun lexeme member => closed lexeme (by simp [member])
  have noBlock : Lexeme.closeBlock linesBehind = none := by decide
  by_contra someStray
  have stray : ∃ lexeme ∈ Lexeme.all (Text.dropFinalBreak text), lexeme.isStray = true := by simpa using someStray
  have still : ∃ lexeme ∈ Lexeme.all (Text.dropFinalBreak text ++ '\n' :: linesBehind), lexeme.isStray = true := by
    cases ends : Lexeme.closes (Lexeme.all (Text.dropFinalBreak text)) linesBehind with
    | false => exact Lexeme.stray_before_break stray ends
    | true =>
        unfold Lexeme.closes at ends
        split at ends
        · next rest isTail =>
            have unclosed := Lexeme.opens_quote.mp (Lexeme.leads_of_stray isTail).1
            obtain ⟨lexeme, member, isStray⟩ := stray_of_quote unclosed
            rw [Lexeme.all_append_of_stray isTail]
            exact ⟨lexeme, List.mem_append_right _ member, isStray⟩
        · rw [noBlock] at ends
          cases ends
        · cases ends
  obtain ⟨lexeme, member, isStray⟩ := still
  rw [behind lexeme member] at isStray
  cases isStray

theorem closed_of_dropFinalBreak
    (closed : ∀ lexeme ∈ Lexeme.all (Text.dropFinalBreak text), lexeme.isStray = false) :
    ∀ lexeme ∈ Lexeme.all text, lexeme.isStray = false := by
  by_cases final : text.getLast? = some '\n'
  · obtain ⟨front, rfl⟩ := List.getLast?_eq_some_iff.mp final
    rw [Text.dropFinalBreak, if_pos final, List.dropLast_concat] at closed
    rw [Lexeme.all_append_break closed]
    exact List.forall_mem_append.mpr ⟨closed, List.forall_mem_singleton.mpr rfl⟩
  · rwa [Text.dropFinalBreak, if_neg final] at closed

/-! ## The end of the scope -/

/-- The lines behind a program add a form that they close and the export. -/
theorem done_of_behind {outline : Outline} {forms : List Form}
    (read : outline.steps (Lexeme.all linesBehind) = some ⟨[], forms⟩) :
    Outline.depth outline.stack = 1 ∧
      ∃ scope before, forms = exportForm :: scope :: before ∧ outline.done.length ≤ before.length := by
  have net : Lexeme.net (Lexeme.all linesBehind) = -1 := by decide
  have grown : (0 : Int) = Outline.depth outline.stack + Lexeme.net (Lexeme.all linesBehind) := Outline.depth_steps read
  have one : Outline.depth outline.stack = 1 := by omega
  refine ⟨one, ?_⟩
  rw [steps_behind] at read
  obtain ⟨closed, isClosed, final⟩ := Option.map_eq_some_iff.mp read
  obtain ⟨after, added, frame⟩ := Outline.place_frame (.atom .nil) outline.stack
  have pushed : outline.push (.atom .nil) = ⟨after, added ++ outline.done⟩ := frame outline.done
  have still : Outline.depth after = 1 := by
    have same := Outline.depth_place (.atom .nil) outline.done outline.stack
    rwa [frame, one] at same
  rw [pushed] at isClosed
  dsimp only [Outline.close] at isClosed
  split at isClosed
  · next opened items rest =>
      have flat : Outline.depth rest = 0 := by
        rw [Outline.depth_bracket] at still
        omega
      obtain ⟨scope, placed, _⟩ := Outline.place_flat flat (.group .round items.reverse)
      split at isClosed
      · cases isClosed
        rw [placed, Outline.push, Outline.place] at final
        cases final
        exact ⟨scope, added ++ outline.done, rfl, by simp⟩
      · cases isClosed
  · cases isClosed

theorem depth_inside (outline : Outline) : Outline.depth (inside outline).stack = Outline.depth outline.stack + 1 := by
  simp [inside, Outline.within, Outline.depth]

/-- Where only quote marks are open, the scope ends with what they quote. -/
theorem behind_flat {stack : List (Opener × List Form)} {forms : List Form} (flat : Outline.depth stack = 0) :
    ∃ last, (inside ⟨stack, forms.reverse⟩).steps (Lexeme.all linesBehind) =
        some ⟨[], [exportForm, scopeOf (forms ++ [last]), queueForm]⟩ ∧
      last.isEven = true ∧ (stack ≠ [] → ∃ inner, last = .quote inner) := by
  obtain ⟨last, placed, even, _, quoted⟩ := Outline.place_flat flat (.atom .nil)
  refine ⟨last, ?_, even, quoted⟩
  have pushed : (inside ⟨stack, forms.reverse⟩).push (.atom .nil) = inside ⟨[], last :: forms.reverse⟩ := by
    rw [← placed]
    exact Outline.place_within _ _ _
  rw [steps_behind, pushed]
  simp [inside, scopeOf, Outline.within, Outline.close, Outline.place, Outline.push]

/-! ## Which programs a scope accepts -/

theorem steps_of_wrap {result : List Form} (read : Form.read (String.ofList (wrap .commonjs text)) = .ok result) :
    ∃ middle, (inside .initial).steps (Lexeme.all (Text.dropFinalBreak text)) = some middle ∧
      middle.steps (Lexeme.all linesBehind) = some ⟨[], result.reverse⟩ := by
  have steps := (Form.read_ok_iff.mp read).1
  rw [steps_wrap (closed_of_wrap read)] at steps
  exact Option.bind_eq_some_iff.mp steps

/-- A program that closes the scope leaves it behind as a form of its own. -/
theorem forms_of_escapes {result : List Form} (read : Form.read (String.ofList (wrap .commonjs text)) = .ok result)
    (leaves : Outline.initial.escapes (Lexeme.all text) = true) : 3 < result.length := by
  rw [← Outline.escapes_dropFinalBreak (closed_of_dropFinalBreak (closed_of_wrap read))] at leaves
  obtain ⟨middle, inScope, behind⟩ := steps_of_wrap read
  have finished : [queueForm].length < middle.done.length := Outline.initial.done_of_escapes inScope leaves
  obtain ⟨_, scope, before, split, kept⟩ := done_of_behind behind
  have size := congrArg List.length split
  simp only [List.length_reverse, List.length_cons, List.length_nil] at size finished
  omega

/-- What the scope holds when the program does not close it. -/
theorem scope_of_wrap {result : List Form} (read : Form.read (String.ofList (wrap .commonjs text)) = .ok result)
    (contained : Outline.initial.escapes (Lexeme.all text) = false) :
    ∃ stack forms last, Outline.initial.steps (Lexeme.all text) = some ⟨stack, forms.reverse⟩ ∧
      Outline.depth stack = 0 ∧ Form.areEven forms = true ∧
      result = [queueForm, scopeOf (forms ++ [last]), exportForm] ∧ (stack ≠ [] → ∃ inner, last = .quote inner) := by
  have closed := closed_of_dropFinalBreak (closed_of_wrap read)
  rw [← Outline.escapes_dropFinalBreak closed] at contained
  obtain ⟨middle, inScope, behind⟩ := steps_of_wrap read
  obtain ⟨⟨stack, inner⟩, alone, isMiddle⟩ := Outline.initial.steps_of_within inScope contained
  obtain rfl : middle = inside ⟨stack, inner⟩ := isMiddle
  rw [Outline.steps_dropFinalBreak closed] at alone
  have flat : Outline.depth stack = 0 := by
    have one := (done_of_behind behind).1
    rw [depth_inside] at one
    exact Nat.succ.inj one
  obtain ⟨forms, rfl⟩ : ∃ forms : List Form, inner = forms.reverse := ⟨inner.reverse, (List.reverse_reverse _).symm⟩
  obtain ⟨last, ends, _, quoted⟩ := @behind_flat stack forms flat
  obtain rfl : result = [queueForm, scopeOf (forms ++ [last]), exportForm] := by
    have same := congrArg Outline.done (Option.some.inj (behind.symm.trans ends))
    simpa using congrArg List.reverse same
  have even := (Form.read_ok_iff.mp read).2
  simp only [Form.areEven, scopeOf, Form.isEven, Form.areEven_append, Bool.and_eq_true] at even
  exact ⟨stack, forms, last, alone, flat, even.2.1.1.2.2.1, rfl, quoted⟩

theorem read_of_dangles (dangles : Dangles text) :
    ∃ result, Form.read (String.ofList (wrap .commonjs text)) = .ok result := by
  obtain ⟨stack, forms, steps, _, flat, even⟩ := dangles
  obtain ⟨last, ends, evenLast, _⟩ := @behind_flat stack forms flat
  have alone := (Outline.steps_dropFinalBreak (Outline.steps_not_stray steps) .initial).trans steps
  have inScope : (inside .initial).steps (Lexeme.all (Text.dropFinalBreak text)) = some (inside ⟨stack, forms.reverse⟩) :=
    Outline.initial.steps_within alone
  refine ⟨[queueForm, scopeOf (forms ++ [last]), exportForm], Form.read_ok_iff.mpr ⟨?_, ?_⟩⟩
  · rw [steps_wrap (Outline.steps_not_stray alone), inScope, Option.bind_some, ends]
    rfl
  · simp [Form.areEven, Form.isEven, queueForm, scopeOf, exportForm, Form.areEven_append, even, evenLast]

/-- A scope holds the forms of a program exactly when the program reads as them. Around a text that closes no bracket it
did not open, the scope reads exactly when the text does, up to quote marks at its end. Any other text reads, if at all,
as more than the three forms. -/
theorem wrap_accepts (text : List Char) :
    (∀ forms, Form.read (String.ofList (wrap .commonjs text)) = .ok [queueForm, scopeForm forms, exportForm] ↔
      Form.read (String.ofList text) = .ok forms) ∧
    (Outline.initial.escapes (Lexeme.all text) = false →
      ((∃ result, Form.read (String.ofList (wrap .commonjs text)) = .ok result) ↔
        (∃ forms, Form.read (String.ofList text) = .ok forms) ∨ Dangles text)) ∧
    (Outline.initial.escapes (Lexeme.all text) = true →
      ∀ result, Form.read (String.ofList (wrap .commonjs text)) = .ok result → 3 < result.length) := by
  refine ⟨fun forms => ⟨fun read => ?_, read_wrap⟩, fun contained => ⟨?_, ?_⟩,
    fun leaves result read => forms_of_escapes read leaves⟩
  · cases leaves : Outline.initial.escapes (Lexeme.all text) with
    | true => exact absurd (forms_of_escapes read leaves) (by simp)
    | false =>
        obtain ⟨stack, found, last, steps, _, even, same, quoted⟩ := scope_of_wrap read leaves
        obtain ⟨rfl, isNil⟩ : forms = found ∧ Form.atom .nil = last := by
          simpa [scopeForm, scopeOf] using same
        cases stack with
        | nil => exact Form.read_ok_iff.mpr ⟨steps, even⟩
        | cons pending rest =>
            -- What a quote mark at the end quotes is the form behind the program.
            obtain ⟨inner, isQuote⟩ := quoted (List.cons_ne_nil _ _)
            rw [isQuote] at isNil
            cases isNil
  · rintro ⟨result, read⟩
    obtain ⟨stack, forms, last, steps, flat, even, _⟩ := scope_of_wrap read contained
    cases stack with
    | nil => exact .inl ⟨forms, Form.read_ok_iff.mpr ⟨steps, even⟩⟩
    | cons pending rest => exact .inr ⟨_, forms, steps, List.cons_ne_nil _ _, flat, even⟩
  · rintro (⟨forms, read⟩ | dangles)
    · exact ⟨_, read_wrap read⟩
    · exact read_of_dangles dangles

theorem wrap_accepts_unclosed :
    Outline.initial.escapes (Lexeme.all "(f \")\" ; '\n".toList) = false ∧
      (¬ ∃ result, Form.read (String.ofList (wrap .commonjs "(f \")\" ; '\n".toList)) = .ok result) ∧
      Outline.initial.escapes (Lexeme.all "x) (f".toList) = true ∧
      ∃ result, Form.read (String.ofList (wrap .commonjs "x) (f".toList)) = .ok result ∧ 3 < result.length := by
  have contained : Outline.initial.escapes (Lexeme.all "(f \")\" ; '\n".toList) = false := by decide
  have leaves : Outline.initial.escapes (Lexeme.all "x) (f".toList) = true := by decide
  have steps : Outline.initial.steps (Lexeme.all "(f \")\" ; '\n".toList) =
      some ⟨[(.bracket .round, [.atom (.string ")"), .atom (.symbol "f")])], []⟩ := rfl
  obtain ⟨result, accepted⟩ : ∃ result, Form.read (String.ofList (wrap .commonjs "x) (f".toList)) = .ok result :=
    ⟨[_, _, _, _], Form.read_ok_iff.mpr ⟨rfl, rfl⟩⟩
  refine ⟨contained, fun accepted => ?_, leaves, result, accepted, (wrap_accepts _).2.2 leaves result accepted⟩
  rcases ((wrap_accepts _).2.1 contained).mp accepted with ⟨forms, read⟩ | ⟨stack, forms, dangling, _, flat, _⟩
  · cases steps.symm.trans (Form.read_ok_iff.mp read).1
  · have same := congrArg Outline.stack (Option.some.inj (steps.symm.trans dangling))
    subst same
    cases flat

/-- Texts that are no programs in scopes that read: one ends in a quote mark, which takes the form behind it, and one
closes the scope and opens a group, which the lines behind it close. -/
theorem wrap_completes :
    ((∃ result, Form.read (String.ofList (wrap .commonjs "'\n".toList)) = .ok result) ∧
      ¬ ∃ forms, Form.read (String.ofList "'\n".toList) = .ok forms) ∧
    (∃ result, Form.read (String.ofList (wrap .commonjs ") (list\n".toList)) = .ok result) ∧
      ¬ ∃ forms, Form.read (String.ofList ") (list\n".toList) = .ok forms := by
  refine ⟨⟨⟨[_, _, _], Form.read_ok_iff.mpr ⟨rfl, rfl⟩⟩, ?_⟩,
    ⟨[_, _, _, _], Form.read_ok_iff.mpr ⟨rfl, rfl⟩⟩, ?_⟩
  · rintro ⟨forms, read⟩
    have steps : Outline.initial.steps (Lexeme.all "'\n".toList) = some ⟨[(.quote, [])], []⟩ := rfl
    cases steps.symm.trans (Form.read_ok_iff.mp read).1
  · rintro ⟨forms, read⟩
    have steps : Outline.initial.steps (Lexeme.all ") (list\n".toList) = none := rfl
    cases steps.symm.trans (Form.read_ok_iff.mp read).1

end Envelope

end Exemplar
