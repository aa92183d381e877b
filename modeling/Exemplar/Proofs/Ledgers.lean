import Exemplar.Proofs.Outline

/-!
# Ledgers of lexemes

Whether lexemes can be read depends on what is open around them only through the kinds of the open groups and the
numbers of forms in them. A tally keeps just these. A ledger says what lexemes do to every tally: which groups around
them they close, with how many forms more in each, and which they leave open.
-/

namespace Exemplar

open Reader

/-! ## Moves -/

/-- What a lexeme asks of a reader. -/
inductive Reader.Move where
  | skip
  | form
  | descend (opener : Opener)
  | close (bracket : Bracket)

/-- The move of a lexeme, unless no program holds it. -/
def Lexeme.move? : Lexeme → Option Move
  | block _ | line _ => some .skip
  | string _ => some .form
  | word characters => (Atom.ofWord? characters).map fun _ => .form
  | mark c =>
      if isSpace c then some .skip
      else if c = '\'' then some (.descend .quote)
      else
        match Bracket.ofOpening? c with
        | some bracket => some (.descend (.bracket bracket))
        | none => (Bracket.ofClosing? c).map .close

namespace Reader.Move

variable {σ τ : Type} {make : σ → Move → Option σ} {make' : τ → Move → Option τ}

/-- Makes the moves of lexemes in order. -/
def run (make : σ → Move → Option σ) (s : σ) : List Lexeme → Option σ
  | [] => some s
  | lexeme :: rest => (lexeme.move?.bind (make s)).bind (run make · rest)

theorem run_append (s : σ) (left right : List Lexeme) :
    run make s (left ++ right) = (run make s left).bind (run make · right) := by
  induction left generalizing s with
  | nil => rfl
  | cons lexeme rest ih =>
      rw [List.cons_append, run, run, Option.bind_assoc _ _ (run make · right)]
      exact Option.bind_congr fun next _ => ih next

/-- A view that goes along with every move goes along with runs. -/
theorem run_natural {view : σ → Option τ}
    (natural : ∀ s move, (make s move).bind view = (view s).bind (make' · move)) (s : σ) (lexemes : List Lexeme) :
    (run make s lexemes).bind view = (view s).bind (run make' · lexemes) := by
  induction lexemes generalizing s with
  | nil => simp [run]
  | cons lexeme rest ih =>
      simp only [run]
      cases lexeme.move? with
      | none => simp
      | some move =>
          simp only [Option.bind_some, Option.bind_assoc, ih]
          rw [← Option.bind_assoc, natural, Option.bind_assoc]

theorem not_stray_of_move {lexeme : Lexeme} {move : Move} (moves : lexeme.move? = some move) :
    lexeme.isStray = false := by
  cases lexeme with
  | mark c =>
      rw [Lexeme.isStray, Bool.or_eq_false_iff, beq_eq_false_iff_ne, beq_eq_false_iff_ne]
      constructor <;> (rintro rfl; cases moves)
  | _ => rfl

theorem run_not_stray {s t : σ} {lexemes : List Lexeme} (ran : run make s lexemes = some t) :
    ∀ lexeme ∈ lexemes, lexeme.isStray = false := by
  induction lexemes generalizing s with
  | nil => exact fun _ member => absurd member List.not_mem_nil
  | cons lexeme rest ih =>
      obtain ⟨middle, first, later⟩ := Option.bind_eq_some_iff.mp ran
      obtain ⟨move, moves, _⟩ := Option.bind_eq_some_iff.mp first
      exact List.forall_mem_cons.mpr ⟨not_stray_of_move moves, ih later⟩

end Reader.Move

/-! ## Tallies -/

namespace Reader

/-- Open groups, innermost first, each with the number of its forms so far. -/
abbrev Frames := List (Bracket × Nat)

namespace Frames

/-- Adds forms to the innermost group. -/
def bump (count : Nat) : Frames → Frames
  | [] => []
  | (bracket, forms) :: rest => (bracket, forms + count) :: rest

theorem bump_zero (frames : Frames) : frames.bump 0 = frames := by
  cases frames <;> rfl

theorem bump_bump (n m : Nat) (frames : Frames) : (frames.bump n).bump m = frames.bump (n + m) := by
  cases frames with
  | nil => rfl
  | cons frame rest => simp [bump, Nat.add_assoc]

/-- Whether a group with that many forms may be closed: a map literal holds pairs. -/
def mayClose (bracket : Bracket) (forms : Nat) : Bool := !(bracket == .curly && forms % 2 == 1)

theorem mayClose_round (forms : Nat) : mayClose .round forms = true := rfl

theorem mayClose_curly (forms : Nat) : mayClose .curly forms = true ↔ forms % 2 = 0 := by
  simp [mayClose]

end Frames

/-- What is open, and whether a quote mark waits for its form. -/
structure Tally where
  frames : Frames
  quoted : Bool
  deriving DecidableEq

namespace Tally

def initial : Tally := ⟨[], false⟩

def add (t : Tally) : Tally := ⟨t.frames.bump 1, false⟩

def descend (t : Tally) : Opener → Tally
  | .quote => ⟨t.frames, true⟩
  | .bracket bracket => ⟨(bracket, 0) :: t.frames, false⟩

/-- Closes the innermost group when it has the right bracket and may be closed. -/
def close (t : Tally) (bracket : Bracket) : Option Tally :=
  if t.quoted then none
  else
    match t.frames with
    | [] => none
    | (opened, forms) :: rest =>
        if opened = bracket ∧ Frames.mayClose bracket forms = true then some (add ⟨rest, false⟩) else none

def make (t : Tally) : Move → Option Tally
  | .skip => some t
  | .form => some t.add
  | .descend opener => some (t.descend opener)
  | .close bracket => t.close bracket

end Tally

namespace Outline

/-- The tally of a stack, unless some map literal inside of it or among the forms outside holds a key alone. -/
def tallyOf (done : List Form) : List (Opener × List Form) → Option Tally
  | [] => if Form.areEven done then some .initial else none
  | (.quote, _) :: rest => (tallyOf done rest).map fun t => ⟨t.frames, true⟩
  | (.bracket bracket, items) :: rest =>
      if Form.areEven items then (tallyOf done rest).map fun t => ⟨(bracket, items.length) :: t.frames, false⟩
      else none

def tally (outline : Outline) : Option Tally := tallyOf outline.done outline.stack

theorem tally_place (form : Form) (done : List Form) (stack : List (Opener × List Form)) :
    (place form done stack).tally = if form.isEven then (tallyOf done stack).map Tally.add else none := by
  induction stack generalizing form with
  | nil =>
      cases even : form.isEven <;> simp [place, tally, tallyOf, Form.areEven, even]
      rfl
  | cons pending rest ih =>
      obtain ⟨opener, items⟩ := pending
      cases opener with
      | quote =>
          rw [place, ih, Form.isEven, tallyOf, Option.map_map]
          rfl
      | bracket bracket =>
          cases even : form.isEven <;> cases evenItems : Form.areEven items <;>
            simp [place, tally, tallyOf, Form.areEven, even, evenItems, Tally.add, Frames.bump, Function.comp_def]

theorem tally_descend (outline : Outline) (opener : Opener) :
    (outline.descend opener).tally = outline.tally.map (·.descend opener) := by
  cases opener <;> rfl

theorem tally_close (outline : Outline) (bracket : Bracket) :
    (outline.close bracket).bind tally = outline.tally.bind (·.close bracket) := by
  obtain ⟨stack, done⟩ := outline
  cases stack with
  | nil =>
      simp only [close, tally, tallyOf]
      cases Form.areEven done <;> rfl
  | cons pending rest =>
      obtain ⟨opener, items⟩ := pending
      cases opener with
      | quote =>
          simp only [close, tally, tallyOf]
          cases tallyOf done rest <;> rfl
      | bracket opened =>
          simp only [tally, tallyOf]
          by_cases right : opened = bracket
          · subst right
            have closed : close ⟨(.bracket opened, items) :: rest, done⟩ opened =
                some (place (.group opened items.reverse) done rest) := if_pos rfl
            have reversed : Form.areEven items.reverse = Form.areEven items := by
              rw [Bool.eq_iff_iff, Form.areEven_iff, Form.areEven_iff]
              simp
            have placed := tally_place (.group opened items.reverse) done rest
            rw [Form.isEven, reversed, List.length_reverse] at placed
            rw [closed, Option.bind_some]
            refine placed.trans ?_
            cases Form.areEven items with
            | false => rfl
            | true =>
                cases tallyOf done rest with
                | none => simp
                | some t => simp [Tally.close, Frames.mayClose, Tally.add]
          · have failed : close ⟨(.bracket opened, items) :: rest, done⟩ bracket = none := if_neg right
            rw [failed]
            cases Form.areEven items with
            | false => rfl
            | true => cases tallyOf done rest <;> simp [Tally.close, right]

/-- Reading one lexeme makes its move in the tally. -/
theorem tally_step (outline : Outline) (lexeme : Lexeme) :
    (outline.step lexeme).bind tally = outline.tally.bind fun t => lexeme.move?.bind t.make := by
  have pushed (a : Atom) : (outline.push (.atom a)).tally = outline.tally.map Tally.add := tally_place (.atom a) _ _
  have kept : outline.tally = outline.tally.bind some := (Option.bind_fun_some _).symm
  cases lexeme with
  | block body => exact kept
  | line body => exact kept
  | string body => exact (pushed _).trans Option.map_eq_bind
  | word characters =>
      cases spelled : Atom.ofWord? characters with
      | none => simp [step, Lexeme.move?, spelled]
      | some a =>
          simp only [step, Lexeme.move?, spelled, Option.map_some, Option.bind_some, pushed]
          exact Option.map_eq_bind
  | mark c =>
      unfold step Lexeme.move?
      dsimp only
      split
      · exact kept
      · split
        · exact (tally_descend outline .quote).trans Option.map_eq_bind
        · cases Bracket.ofOpening? c with
          | some bracket => exact (tally_descend outline (.bracket bracket)).trans Option.map_eq_bind
          | none =>
              cases Bracket.ofClosing? c with
              | none => simp
              | some bracket => exact tally_close outline bracket

theorem tally_steps (outline : Outline) (lexemes : List Lexeme) :
    (outline.steps lexemes).bind tally = outline.tally.bind (Move.run Tally.make · lexemes) := by
  induction lexemes generalizing outline with
  | nil => simp [steps, Move.run]
  | cons lexeme rest ih =>
      simp only [steps, Move.run]
      rw [Option.bind_assoc, ← Option.bind_assoc outline.tally, ← tally_step, Option.bind_assoc]
      exact Option.bind_congr fun next _ => ih next

theorem tally_eq_initial {outline : Outline} :
    outline.tally = some .initial ↔ outline.stack = [] ∧ Form.areEven outline.done = true := by
  obtain ⟨stack, done⟩ := outline
  cases stack with
  | nil => simp [tally, tallyOf]
  | cons pending rest =>
      obtain ⟨opener, items⟩ := pending
      cases opener <;> simp [tally, tallyOf, Tally.initial]

end Outline

end Reader

/-- A text is a program when its moves leave nothing open. -/
theorem Form.read_iff_tally {text : List Char} :
    (∃ forms, Form.read (String.ofList text) = .ok forms) ↔
      Move.run Tally.make .initial (Lexeme.all text) = some .initial := by
  have tallied : (Outline.initial.steps (Lexeme.all text)).bind Outline.tally =
      Move.run Tally.make .initial (Lexeme.all text) := Outline.tally_steps .initial _
  have reversed (forms : List Form) : Form.areEven forms.reverse = true ↔ Form.areEven forms = true := by
    simp [Form.areEven_iff]
  simp only [Form.read_ok_iff]
  rw [← tallied, Option.bind_eq_some_iff]
  constructor
  · rintro ⟨forms, steps, even⟩
    exact ⟨_, steps, Outline.tally_eq_initial.mpr ⟨rfl, (reversed forms).mpr even⟩⟩
  · rintro ⟨⟨stack, done⟩, steps, ends⟩
    obtain ⟨rfl, even⟩ := Outline.tally_eq_initial.mp ends
    exact ⟨done.reverse, by rw [List.reverse_reverse]; exact steps, (reversed done).mpr even⟩

/-! ## Ledgers -/

namespace Reader

/-- What lexemes do to what is open around them. -/
structure Ledger where
  /-- The groups around the lexemes that they close, innermost first, with the numbers of forms they add to them. -/
  closed : Frames
  /-- How many forms they add to the group in which they end. -/
  added : Nat
  /-- The groups they leave open, innermost first, with the numbers of forms in them. -/
  opened : Frames
  /-- Whether they end in a quote mark. -/
  quoted : Bool
  deriving DecidableEq

namespace Ledger

def initial : Ledger := ⟨[], 0, [], false⟩

def add (l : Ledger) : Ledger :=
  match l.opened with
  | [] => { l with added := l.added + 1, quoted := false }
  | _ :: _ => { l with opened := l.opened.bump 1, quoted := false }

def descend (l : Ledger) : Opener → Ledger
  | .quote => { l with quoted := true }
  | .bracket bracket => { l with opened := (bracket, 0) :: l.opened, quoted := false }

/-- Closes the innermost group. One that stands around the lexemes is then a form of the next one out. -/
def close (l : Ledger) (bracket : Bracket) : Option Ledger :=
  if l.quoted then none
  else
    match l.opened with
    | [] => some { l with closed := l.closed ++ [(bracket, l.added)], added := 1 }
    | (opened, forms) :: rest =>
        if opened = bracket ∧ Frames.mayClose bracket forms = true then some (add { l with opened := rest }) else none

def make (l : Ledger) : Move → Option Ledger
  | .skip => some l
  | .form => some l.add
  | .descend opener => some (l.descend opener)
  | .close bracket => l.close bracket

/-- The ledger of lexemes, unless they can be read nowhere. -/
def of? (lexemes : List Lexeme) : Option Ledger := Move.run make initial lexemes

/-- Closes groups, innermost first, behind some more forms in each. -/
def leave : Frames → Frames → Option Frames
  | [], frames => some frames
  | _ :: _, [] => none
  | (bracket, forms) :: more, (opened, before) :: rest =>
      if opened = bracket ∧ Frames.mayClose bracket (before + forms) = true then leave more rest else none

theorem leave_append (left right frames : Frames) :
    leave (left ++ right) frames = (leave left frames).bind (leave right) := by
  induction left generalizing frames with
  | nil => rfl
  | cons group more ih =>
      cases frames with
      | nil => rfl
      | cons frame rest =>
          rw [List.cons_append, leave, leave]
          split
          · exact ih rest
          · rfl

theorem leave_cons {bracket : Bracket} {forms : Nat} {more frames left : Frames} :
    leave ((bracket, forms) :: more) frames = some left ↔
      ∃ before rest, frames = (bracket, before) :: rest ∧ Frames.mayClose bracket (before + forms) = true ∧
        leave more rest = some left := by
  cases frames with
  | nil => simp [leave]
  | cons frame rest =>
      obtain ⟨opened, before⟩ := frame
      rw [leave]
      constructor
      · intro leaves
        split at leaves
        · next right =>
            obtain ⟨rfl, closes⟩ := right
            exact ⟨before, rest, rfl, closes, leaves⟩
        · cases leaves
      · rintro ⟨_, _, same, closes, leaves⟩
        cases same
        rw [if_pos ⟨rfl, closes⟩]
        exact leaves

/-- The tally behind the lexemes of a ledger, inside the given groups. -/
def inside (frames : Frames) (l : Ledger) : Option Tally :=
  (leave l.closed frames).map fun left => ⟨l.opened ++ left.bump l.added, l.quoted⟩

theorem inside_make (frames : Frames) (l : Ledger) (move : Move) :
    (l.make move).bind (inside frames) = (l.inside frames).bind (·.make move) := by
  obtain ⟨closed, added, opened, quoted⟩ := l
  have adds (quoted : Bool) (opened : Frames) : (add ⟨closed, added, opened, quoted⟩).inside frames =
      (inside frames ⟨closed, added, opened, quoted⟩).map Tally.add := by
    cases opened with
    | nil => simp [add, inside, Tally.add, Frames.bump_bump, Function.comp_def]
    | cons group rest => simp [add, inside, Tally.add, Frames.bump, Function.comp_def]
  cases move with
  | skip => exact (Option.bind_fun_some _).symm
  | form => exact (adds quoted opened).trans Option.map_eq_bind
  | descend opener =>
      have descends : (descend ⟨closed, added, opened, quoted⟩ opener).inside frames =
          (inside frames ⟨closed, added, opened, quoted⟩).map (·.descend opener) := by
        cases opener <;> simp [descend, inside, Tally.descend, Function.comp_def]
      exact descends.trans Option.map_eq_bind
  | close bracket =>
      change (close _ bracket).bind (inside frames) = (inside frames _).bind (·.close bracket)
      cases quoted with
      | true =>
          rw [inside]
          cases leave closed frames <;> rfl
      | false =>
          cases opened with
          | nil =>
              have closes : close ⟨closed, added, [], false⟩ bracket =
                  some ⟨closed ++ [(bracket, added)], 1, [], false⟩ := rfl
              rw [closes, Option.bind_some, inside, inside, leave_append]
              cases leave closed frames with
              | none => rfl
              | some left =>
                  cases left with
                  | nil => rfl
                  | cons frame rest =>
                      obtain ⟨opened, before⟩ := frame
                      by_cases right : opened = bracket ∧ Frames.mayClose bracket (before + added) = true <;>
                        simp [leave, Frames.bump, Tally.close, Tally.add, right]
          | cons group rest =>
              obtain ⟨opened, forms⟩ := group
              by_cases right : opened = bracket ∧ Frames.mayClose bracket forms = true
              · have closes : close ⟨closed, added, (opened, forms) :: rest, false⟩ bracket =
                    some (add ⟨closed, added, rest, false⟩) := if_pos right
                rw [closes, Option.bind_some, adds, inside, inside]
                cases leave closed frames <;> simp [Tally.close, Tally.add, right]
              · have closes : close ⟨closed, added, (opened, forms) :: rest, false⟩ bracket = none := if_neg right
                rw [closes, inside]
                cases leave closed frames <;> simp [Tally.close, right]

/-- What lexemes do to what is open around them is in their ledger. -/
theorem run_inside (frames : Frames) (lexemes : List Lexeme) :
    Move.run Tally.make ⟨frames, false⟩ lexemes = (of? lexemes).bind (inside frames) := by
  have start : initial.inside frames = some ⟨frames, false⟩ := by
    rw [inside, initial, leave, Option.map_some, Frames.bump_zero]
    rfl
  rw [of?, Move.run_natural (inside_make frames), start, Option.bind_some]

end Ledger

end Reader

/-- A text is a program when it closes nothing around it and leaves nothing open. -/
theorem Form.read_iff_ledger {text : List Char} :
    (∃ forms, Form.read (String.ofList text) = .ok forms) ↔
      ∃ added, Ledger.of? (Lexeme.all text) = some ⟨[], added, [], false⟩ := by
  rw [Form.read_iff_tally, Tally.initial, Ledger.run_inside]
  constructor
  · intro ends
    obtain ⟨⟨closed, added, opened, quoted⟩, ledger, inside⟩ := Option.bind_eq_some_iff.mp ends
    refine ⟨added, ledger.trans ?_⟩
    cases closed with
    | cons group more => cases inside
    | nil =>
        obtain ⟨left, leaves, same⟩ := Option.map_eq_some_iff.mp inside
        cases leaves
        obtain ⟨none, rfl⟩ := Tally.mk.inj same
        obtain rfl : opened = [] := (List.append_eq_nil_iff.mp none).1
        rfl
  · rintro ⟨added, ledger⟩
    rw [ledger]
    rfl

theorem Form.ledger_of_read {text : List Char} {forms : List Form}
    (read : Form.read (String.ofList text) = .ok forms) :
    Ledger.of? (Lexeme.all text) = some ⟨[], forms.length, [], false⟩ := by
  obtain ⟨added, ledger⟩ := Form.read_iff_ledger.mp ⟨forms, read⟩
  obtain ⟨steps, even⟩ := Form.read_ok_iff.mp read
  -- Inside a group the forms can be counted.
  have inGroup : Outline.steps ⟨[(.bracket .round, [])], []⟩ (Lexeme.all text) =
      some ⟨[(.bracket .round, forms.reverse ++ [])], []⟩ := Outline.initial.steps_within steps
  have tallied := Outline.tally_steps ⟨[(.bracket .round, [])], []⟩ (Lexeme.all text)
  have evenInGroup : Form.areEven (forms.reverse ++ []) = true := by simpa [Form.areEven_iff] using even
  have counted : Outline.tally ⟨[(.bracket .round, forms.reverse ++ [])], []⟩ =
      some ⟨[(.round, (forms.reverse ++ []).length)], false⟩ := by
    rw [Outline.tally, Outline.tallyOf, if_pos evenInGroup]
    rfl
  have start : Outline.tally ⟨[(.bracket .round, [])], []⟩ = some ⟨[(.round, 0)], false⟩ := rfl
  rw [inGroup, Option.bind_some, counted, start, Option.bind_some, Ledger.run_inside, ledger,
    Option.bind_some] at tallied
  have same : forms.length = 0 + added := by simpa [Ledger.inside, Ledger.leave, Frames.bump] using tallied
  rw [ledger, same, Nat.zero_add]

end Exemplar
