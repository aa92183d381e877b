import Exemplar.Proofs.LiterateComments
import Exemplar.Proofs.Outline
import Exemplar.Harness
import Mathlib.Data.List.Forall2

/-!
# Declarations in literate text

Whether an example is a declaration is asked of its literate text, before it is compiled. The answer depends only on
the lexemes without what strings and comments hold. As long as every `#` stands inside a string or a line comment,
compiling keeps these; a `#` outside of them makes the literate text no program at all.
-/

namespace Exemplar

/-! ## Lexemes without what they hold -/

namespace Lexeme

/-- A string or a comment with nothing between its marks. -/
def hollow : Lexeme → Lexeme
  | string _ => string []
  | block _ => block []
  | line _ => line []
  | lexeme => lexeme

/-- The second text is the first one but for some `#` that are `;` there. -/
def Softens : List Char → List Char → Prop := List.Forall₂ fun c d => d = c ∨ c = '#' ∧ d = ';'

variable {before after : List Char}

theorem Softens.closeQuote (softens : Softens before after) :
    (Text.closeQuote after).map (·.1.length) = (Text.closeQuote before).map (·.1.length) := by
  fun_induction Text.closeQuote before generalizing after with
  | case1 => cases softens; rfl
  | case2 rest =>
      cases softens with
      | cons same later =>
          obtain rfl := same.resolve_right fun hash => absurd hash.1 (by decide)
          rfl
  | case3 c rest ih =>
      cases softens with
      | cons same later =>
          obtain rfl := same.resolve_right fun hash => absurd hash.1 (by decide)
          cases later with
          | cons _ later =>
              have closed := congrArg (Option.map (· + 2)) (ih later)
              simpa [Text.closeQuote, Function.comp_def] using closed
  | case4 =>
      cases softens with
      | cons same later =>
          obtain rfl := same.resolve_right fun hash => absurd hash.1 (by decide)
          cases later
          rfl
  | case5 c rest noQuote noEscape noEnd ih =>
      cases softens with
      | @cons _ d _ rest' same later =>
          have plain := Text.ne_backslash noEscape noEnd
          have noQuote' : d ≠ '"' := by rcases same with rfl | ⟨_, rfl⟩ <;> [exact noQuote; decide]
          have plain' : d ≠ '\\' := by rcases same with rfl | ⟨_, rfl⟩ <;> [exact plain; decide]
          have opened : Text.closeQuote (d :: rest') =
              (Text.closeQuote rest').map fun found => (d :: found.1, found.2) := by
            rw [Text.closeQuote]
            · exact noQuote'
            · exact fun _ _ same => absurd same plain'
            · exact fun same => absurd same plain'
          have closed := congrArg (Option.map (· + 1)) (ih later)
          rw [opened]
          simpa [Function.comp_def] using closed

theorem Softens.symbols (softens : Softens before after) :
    after.takeWhile isSymbolChar = before.takeWhile isSymbolChar := by
  induction softens with
  | nil => rfl
  | cons same _ ih =>
      rcases same with rfl | ⟨rfl, rfl⟩
      · rw [List.takeWhile_cons, List.takeWhile_cons, ih]
      · rfl

theorem Softens.lineLength (softens : Softens before after) :
    (after.takeWhile (!isLineBreak ·)).length = (before.takeWhile (!isLineBreak ·)).length := by
  induction softens with
  | nil => rfl
  | cons same _ ih =>
      rcases same with rfl | ⟨rfl, rfl⟩
      · rw [List.takeWhile_cons, List.takeWhile_cons]
        split
        · simp [ih]
        · rfl
      · exact congrArg (· + 1) ih

theorem first_hash (rest : List Char) : first '#' rest = mark '#' ∨ ∃ body, first '#' rest = block body := by
  cases found : first '#' rest with
  | string body => exact absurd (first_string.mp found).1 (by decide)
  | line body => exact absurd (first_line.mp found).1 (by decide)
  | word characters => exact absurd (first_word.mp found).1 (by decide)
  | block body => exact .inr ⟨body, rfl⟩
  | mark c => exact .inl (by rw [first_mark found])

theorem first_softens {c : Char} (noHash : c ≠ '#') (softens : Softens before after) :
    (first c after).hollow = (first c before).hollow ∧
      (first c after).text.length = (first c before).text.length := by
  unfold first
  split
  · have closing := softens.closeQuote
    cases quoted : Text.closeQuote before <;> cases softened : Text.closeQuote after <;>
      simp_all [hollow, text]
  · split
    · exact ⟨rfl, by simp [text, softens.lineLength]⟩
    · rw [softens.symbols]
      exact ⟨rfl, rfl⟩

/-- Lexemes are cut at the same places and are of the same kinds when no lexeme begins with a `#`. -/
theorem scan_softens (softens : Softens before after) (skip : Nat) (noMark : mark '#' ∉ scan skip before)
    (noBlock : ∀ body, block body ∉ scan skip before) :
    (scan skip after).map hollow = (scan skip before).map hollow := by
  induction softens generalizing skip with
  | nil => rfl
  | @cons c d before after same later ih =>
      cases skip with
      | succ skip => exact ih skip noMark noBlock
      | zero =>
          rw [scan] at noMark noBlock
          have noHash : c ≠ '#' := by
            intro hash
            rw [hash] at noMark noBlock
            rcases first_hash before with found | ⟨body, found⟩
            · exact noMark (found ▸ List.mem_cons_self)
            · exact noBlock body (found ▸ List.mem_cons_self)
          obtain rfl : d = c := same.resolve_right fun hash => noHash hash.1
          obtain ⟨kind, length⟩ := first_softens noHash later
          have rest := ih _ (fun later => noMark (List.mem_cons_of_mem _ later))
            (fun body later => noBlock body (List.mem_cons_of_mem _ later))
          rw [scan, scan, List.map_cons, List.map_cons, kind, length, rest]

end Lexeme

/-! ## Readings without what strings hold -/

namespace Form

mutual

/-- A form with all its strings empty. -/
def hollow : Form → Form
  | atom (.string _) => atom (.string "")
  | atom a => atom a
  | group bracket items => group bracket (hollowAll items)
  | quote inner => quote (hollow inner)

/-- Forms with all their strings empty. -/
def hollowAll : List Form → List Form
  | [] => []
  | item :: rest => hollow item :: hollowAll rest

end

theorem hollowAll_eq_map (forms : List Form) : hollowAll forms = forms.map hollow := by
  induction forms with
  | nil => rfl
  | cons form rest ih => rw [hollowAll, ih, List.map_cons]

mutual

theorem isEven_hollow (form : Form) : form.hollow.isEven = form.isEven := by
  cases form with
  | atom a => cases a <;> rfl
  | group bracket items =>
      rw [hollow, isEven, isEven, areEven_hollow items, hollowAll_eq_map, List.length_map]
  | quote inner =>
      rw [hollow, isEven, isEven]
      exact isEven_hollow inner

theorem areEven_hollow (forms : List Form) : areEven (hollowAll forms) = areEven forms := by
  cases forms with
  | nil => rfl
  | cons form rest => rw [hollowAll, areEven, areEven, isEven_hollow form, areEven_hollow rest]

end

theorem symbol?_hollow (form : Form) : form.hollow.symbol? = form.symbol? := by
  cases form with
  | atom a => cases a <;> rfl
  | _ => rfl

theorem head?_hollow (form : Form) : form.hollow.head? = form.head? := by
  cases form with
  | atom a => cases a <;> rfl
  | quote inner => rfl
  | group bracket items =>
      cases bracket <;> cases items <;> simp [hollow, hollowAll, head?, symbol?_hollow]

end Form

theorem Atom.hollow_ofWord {word : List Char} {a : Atom} (spelled : Atom.ofWord? word = some a) :
    (Form.atom a).hollow = .atom a := by
  cases a with
  | string text =>
      unfold Atom.ofWord? at spelled
      repeat' split at spelled
      all_goals cases spelled
  | _ => rfl

namespace Reader.Outline

/-- An outline with all strings empty. -/
def hollow (outline : Outline) : Outline :=
  ⟨outline.stack.map fun pending => (pending.1, Form.hollowAll pending.2), Form.hollowAll outline.done⟩

theorem place_hollow (form : Form) (done : List Form) (stack : List (Opener × List Form)) :
    (place form done stack).hollow =
      place form.hollow (Form.hollowAll done) (stack.map fun pending => (pending.1, Form.hollowAll pending.2)) := by
  induction stack generalizing form with
  | nil => rfl
  | cons pending rest ih =>
      obtain ⟨opener, items⟩ := pending
      cases opener with
      | quote => exact ih (.quote form)
      | bracket bracket => rfl

theorem close_hollow (outline : Outline) (bracket : Bracket) :
    outline.hollow.close bracket = (outline.close bracket).map hollow := by
  obtain ⟨stack, done⟩ := outline
  cases stack with
  | nil => rfl
  | cons pending rest =>
      obtain ⟨opener, items⟩ := pending
      cases opener with
      | quote => rfl
      | bracket opened =>
          have placed := place_hollow (.group bracket items.reverse) done rest
          rw [Form.hollow, Form.hollowAll_eq_map, List.map_reverse, ← Form.hollowAll_eq_map] at placed
          by_cases right : opened = bracket
          · subst right
            simpa [close, hollow] using placed.symm
          · simp [close, hollow, right]

theorem step_hollow (outline : Outline) (lexeme : Lexeme) :
    outline.hollow.step lexeme.hollow = (outline.step lexeme).map hollow := by
  cases lexeme with
  | block body => rfl
  | line body => rfl
  | string body =>
      have placed := place_hollow (.atom (.string (String.ofList (Text.decode body)))) outline.done outline.stack
      exact congrArg some placed.symm
  | word word =>
      unfold step
      dsimp only [Lexeme.hollow]
      cases spelled : Atom.ofWord? word with
      | none => rfl
      | some a =>
          have placed := place_hollow (.atom a) outline.done outline.stack
          rw [Atom.hollow_ofWord spelled] at placed
          exact congrArg some placed.symm
  | mark c =>
      unfold step
      dsimp only [Lexeme.hollow]
      split
      · rfl
      · split
        · rfl
        · cases Bracket.ofOpening? c with
          | some bracket => rfl
          | none =>
              cases Bracket.ofClosing? c with
              | none => rfl
              | some bracket => exact close_hollow outline bracket

theorem steps_hollow (outline : Outline) (lexemes : List Lexeme) :
    outline.hollow.steps (lexemes.map Lexeme.hollow) = (outline.steps lexemes).map hollow := by
  induction lexemes generalizing outline with
  | nil => rfl
  | cons lexeme rest ih =>
      rw [List.map_cons, steps, steps, step_hollow]
      cases outline.step lexeme with
      | none => rfl
      | some next => exact ih next

end Reader.Outline

/-! ## Declarations -/

namespace Harness

variable {before after : List Char}

theorem isDeclaration_iff {text : List Char} :
    isDeclaration text = true ↔
      ∃ first rest, Form.read (String.ofList text) = .ok (first :: rest) ∧ first.head? = some "define" := by
  unfold isDeclaration
  split
  · next first rest read => simp [read]
  · next other => simpa using fun first rest read => absurd read (other first rest)

/-- A text is still a declaration with other characters in its strings and comments. -/
theorem isDeclaration_of_hollow
    (same : (Lexeme.all after).map Lexeme.hollow = (Lexeme.all before).map Lexeme.hollow)
    (declared : isDeclaration before = true) : isDeclaration after = true := by
  obtain ⟨first, rest, read, isDefinition⟩ := isDeclaration_iff.mp declared
  obtain ⟨stepped, even⟩ := Form.read_ok_iff.mp read
  have steps := Reader.Outline.steps_hollow .initial (Lexeme.all after)
  rw [same, Reader.Outline.steps_hollow, stepped] at steps
  obtain ⟨⟨stack, done⟩, stepped', alike⟩ := Option.map_eq_some_iff.mp steps.symm
  simp only [Reader.Outline.hollow, Reader.Outline.mk.injEq, List.map_nil, List.map_eq_nil_iff,
    Form.hollowAll_eq_map, List.map_reverse] at alike
  obtain ⟨rfl, forms⟩ := alike
  replace forms := congrArg List.reverse forms
  rw [List.reverse_reverse, ← List.map_reverse, List.map_cons] at forms
  obtain ⟨first', rest', reversed, firsts, rests⟩ := List.map_eq_cons_iff.mp forms
  have even' : Form.areEven (first' :: rest') = true := by
    rw [← Form.areEven_hollow, Form.hollowAll_eq_map, List.map_cons, firsts, rests, ← List.map_cons,
      ← Form.hollowAll_eq_map, Form.areEven_hollow, even]
  refine isDeclaration_iff.mpr ⟨first', rest', Form.read_ok_iff.mpr ⟨?_, even'⟩, ?_⟩
  · rw [stepped', ← reversed, List.reverse_reverse]
  · rw [← Form.head?_hollow, firsts, Form.head?_hollow, isDefinition]

theorem not_isDeclaration_of_mark {text : List Char} (stray : .mark '#' ∈ Lexeme.all text) :
    isDeclaration text = false := by
  rw [← Bool.not_eq_true]
  intro declared
  obtain ⟨first, rest, read, _⟩ := isDeclaration_iff.mp declared
  have clean := Reader.Outline.steps_not_stray (Form.read_ok_iff.mp read).1 _ stray
  cases clean

end Harness

namespace Literate

theorem Part.softens_plains (parts : List Part) : Lexeme.Softens (sources parts) (plains parts) := by
  have refl (text : List Char) : Lexeme.Softens text text := List.forall₂_same.mpr fun _ _ => .inl rfl
  induction parts with
  | nil => exact .nil
  | cons part rest ih =>
      rw [sources_cons, plains_cons]
      refine List.rel_append ?_ ih
      cases part with
      | comment body => exact .cons (.inr ⟨rfl, rfl⟩) (refl body)
      | _ => exact refl _

theorem softens_of_compile {text compiled : List Char} (done : compile text = .ok compiled) :
    Lexeme.Softens text compiled := by
  obtain ⟨parts, rest, whole, row, ended⟩ := Part.exists_row text
  rcases ended with rfl | ⟨tail, rfl, unclosed⟩
  · have cuts : Part.Cuts text parts := ⟨by rw [whole, List.append_nil], row⟩
    rw [cuts.compile] at done
    cases done
    rw [← cuts.whole]
    exact Part.softens_plains parts
  · rw [whole, Part.compile_openString row unclosed] at done
    cases done

end Literate

namespace Harness

/-- Of literate text without block comments: it is a declaration exactly when its compiled text is one, unless a `#`
of it stands outside of all strings and line comments. Then it never counts as a declaration, and its code puts
a function into the queue even when the compiled text defines something. -/
theorem isDeclaration_compile {text compiled : List Char} (done : Literate.compile text = .ok compiled)
    (noBlock : ∀ body, .block body ∉ Lexeme.all text) :
    (isDeclaration text = isDeclaration compiled ↔
      .mark '#' ∉ Lexeme.all text ∨ isDeclaration compiled = false) ∧
    ∀ (e : Example) (width : Nat), e.input.value = text → isDeclaration compiled = true →
      (.mark '#' ∉ Lexeme.all text → code width e = List.replicate width ' ' ++ text) ∧
      (.mark '#' ∈ Lexeme.all text → inputCode (List.replicate width ' ') e.input <+: code width e) := by
  have agree (clean : .mark '#' ∉ Lexeme.all text) : isDeclaration text = isDeclaration compiled := by
    have same := Lexeme.scan_softens (Literate.softens_of_compile done) 0 clean noBlock
    exact Bool.eq_iff_iff.mpr ⟨isDeclaration_of_hollow same, isDeclaration_of_hollow same.symm⟩
  refine ⟨⟨fun equal => ?_, fun holds => ?_⟩, fun e width isInput declared => ⟨fun clean => ?_, fun stray => ?_⟩⟩
  · by_cases stray : .mark '#' ∈ Lexeme.all text
    · exact .inr (equal.symm.trans (not_isDeclaration_of_mark stray))
    · exact .inl stray
  · by_cases stray : .mark '#' ∈ Lexeme.all text
    · rw [not_isDeclaration_of_mark stray, holds.resolve_left (absurd stray)]
    · exact agree stray
  · rw [code, isInput, agree clean, declared, if_pos rfl]
  · rw [code, isInput, not_isDeclaration_of_mark stray, if_neg Bool.false_ne_true]
    split
    · exact List.prefix_refl _
    · exact List.prefix_append _ _

/-- With `#` in a string and in a line comment, where compiling changes it. -/
theorem isDeclaration_compile_inside :
    ∃ text compiled : List Char, text = "(define s \"#\");#\n".toList ∧ compiled = "(define s \"#\");;\n".toList ∧
      Literate.compile text = .ok compiled ∧ isDeclaration text = isDeclaration compiled ∧
      code 2 ⟨0, false, ⟨text, .ofLine 1⟩, none⟩ = "  (define s \"#\");#\n".toList := by
  have noBlock (body : List Char) : .block body ∉ Lexeme.all "(define s \"#\");#\n".toList := by
    have lexemes : Lexeme.all "(define s \"#\");#\n".toList =
        [.mark '(', .word "define".toList, .mark ' ', .word ['s'], .mark ' ', .string ['#'], .mark ')', .line ['#'],
          .mark '\n'] := by decide
    rw [lexemes]
    simp
  have done : Literate.compile "(define s \"#\");#\n".toList = .ok "(define s \"#\");;\n".toList := rfl
  obtain ⟨equal, codes⟩ := isDeclaration_compile done noBlock
  exact ⟨_, _, rfl, rfl, done, equal.mpr (.inl (by decide)), (codes _ 2 rfl (by decide)).1 (by decide)⟩

/-- Definitions behind a comment in the literate text, which are no declarations before they are compiled, or after. -/
theorem isDeclaration_before_compile :
    (Literate.compile "# one\n(define x 1)".toList = .ok "; one\n(define x 1)".toList ∧
      isDeclaration "# one\n(define x 1)".toList = false ∧ isDeclaration "; one\n(define x 1)".toList = true) ∧
    (Literate.compile "#| one |# (define x 1)".toList = .ok ";| one |# (define x 1)".toList ∧
      isDeclaration "#| one |# (define x 1)".toList = true ∧
      isDeclaration ";| one |# (define x 1)".toList = false) :=
  ⟨⟨rfl, by decide, by decide⟩, rfl, by decide, by decide⟩

end Harness

end Exemplar
