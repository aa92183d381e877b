import Exemplar.Proofs.ContainedExamples
import Exemplar.Proofs.Ledgers

/-!
# Examples that leave their functions

A text of an example can close the function around it, and more, as long as it opens the like again: the code is then a
program though the text is none. Whether it is one can be told from the ledgers of the texts. Each has to leave a
function in a map in a call open, and the maps have to hold pairs.
-/

namespace Exemplar

open Reader

/-! ## Ledgers between lines -/

namespace Reader

namespace Ledger

/-- What is open behind the lexemes of a ledger, unless they end in a quote mark. -/
def settle (frames : Frames) (l : Ledger) : Option Frames :=
  if l.quoted then none else (l.inside frames).map (·.frames)

theorem settle_eq_some {frames final : Frames} {l : Ledger} :
    l.settle frames = some final ↔
      l.quoted = false ∧ ∃ left, leave l.closed frames = some left ∧ l.opened ++ left.bump l.added = final := by
  unfold settle inside
  cases l.quoted <;> simp

theorem inside_eq_settle (frames : Frames) {l : Ledger} (unquoted : l.quoted = false) :
    l.inside frames = (l.settle frames).map (⟨·, false⟩) := by
  rw [settle, if_neg (Bool.eq_false_iff.mp unquoted), inside, Option.map_map, Option.map_map, unquoted]
  rfl

end Ledger

namespace Move

theorem run_spaces (t : Tally) (width : Nat) (text : List Char) :
    run Tally.make t (Lexeme.all (List.replicate width ' ' ++ text)) = run Tally.make t (Lexeme.all text) := by
  rw [Lexeme.all_spaces]
  induction width with
  | zero => rfl
  | succ width ih => exact ih

theorem run_joinLines {pieces : List (List Char)}
    (closed : ∀ piece ∈ pieces, ∀ lexeme ∈ Lexeme.all piece, lexeme.isStray = false) (last : List Char) (t : Tally) :
    run Tally.make t (Lexeme.all (Text.joinLines (pieces ++ [last]))) =
      run Tally.make t (pieces.flatMap Lexeme.all ++ Lexeme.all last) := by
  induction pieces generalizing t with
  | nil => rfl
  | cons piece rest ih =>
      obtain ⟨here, later⟩ := List.forall_mem_cons.mp closed
      have joined : Text.joinLines (piece :: rest ++ [last]) = piece ++ '\n' :: Text.joinLines (rest ++ [last]) := by
        cases rest <;> rfl
      rw [joined, Lexeme.all_append_break here, List.flatMap_cons, List.append_assoc, run_append, run_append]
      exact Option.bind_congr fun next _ => ih later next

/-- What stands in a string or a comment does not matter. -/
theorem run_literal {kind : List Char → Lexeme} (isLiteral : kind = .string ∨ kind = .block) (t : Tally)
    (passed : List Lexeme) (body other : List Char) (rest : List Lexeme) :
    run Tally.make t (passed ++ kind body :: rest) = run Tally.make t (passed ++ kind other :: rest) := by
  rw [run_append, run_append]
  rcases isLiteral with rfl | rfl <;> rfl

end Move

end Reader

theorem Text.joinLines_merge (left : List (List Char)) (line : List Char) (more : List (List Char)) :
    joinLines (left ++ line :: more) = joinLines (left ++ [joinLines (line :: more)]) := by
  cases left with
  | nil => rfl
  | cons first rest => simp [joinLines_cons]

/-! ## Rows -/

namespace Harness

/-- The groups around the body of a function: the function, the map with the given number of entries before it, and the
call that puts the map into the queue. -/
def around (entries : Nat) (outer : Frames) : Frames :=
  (.round, 2) :: (.curly, 2 * entries + 1) :: (.round, 2) :: outer

/-- The ledger of the brackets behind a function. -/
def shut : Ledger := ⟨[(.round, 0), (.curly, 1), (.round, 1)], 1, [], false⟩

/-- What is open behind a call whose function holds the given lexemes. -/
def leave? (outer : Frames) (entries : Nat) (row : List Lexeme) : Option Frames :=
  (Ledger.of? row).bind fun l => (l.settle (around entries outer)).bind fun inner => shut.settle inner

/-- What is open behind calls in a row, each with the number of entries in its map and the lexemes of its function. -/
def through (outer : Frames) (rows : List (Nat × List Lexeme)) : Option Frames :=
  rows.foldlM (fun outer row => leave? outer row.1 row.2) outer

theorem through_cons (outer : Frames) (row : Nat × List Lexeme) (rows : List (Nat × List Lexeme)) :
    through outer (row :: rows) = (leave? outer row.1 row.2).bind (through · rows) := rfl

theorem leave?_closed {outer frames : Frames} {entries : Nat} {row : List Lexeme}
    (leaves : leave? outer entries row = some frames) : ∀ lexeme ∈ row, lexeme.isStray = false := by
  obtain ⟨l, ledger, _⟩ := Option.bind_eq_some_iff.mp leaves
  exact Move.run_not_stray ledger

theorem through_closed {outer frames : Frames} {rows : List (Nat × List Lexeme)}
    (passes : through outer rows = some frames) : ∀ row ∈ rows, ∀ lexeme ∈ row.2, lexeme.isStray = false := by
  induction rows generalizing outer with
  | nil => exact fun _ member => absurd member List.not_mem_nil
  | cons row rest ih =>
      obtain ⟨middle, leaves, later⟩ := Option.bind_eq_some_iff.mp passes
      exact List.forall_mem_cons.mpr ⟨leave?_closed leaves, ih later⟩

variable {entries : List (List Char)}

theorem run_entries (width forms : Nat) (outer : Frames)
    (pairs : ∀ entry ∈ entries, Ledger.of? (Lexeme.all entry) = some ⟨[], 2, [], false⟩) :
    Move.run Tally.make ⟨(.curly, forms) :: outer, false⟩
        ((entries.map fun entry => List.replicate width ' ' ++ "  ".toList ++ entry).flatMap Lexeme.all) =
      some ⟨(.curly, forms + 2 * entries.length) :: outer, false⟩ := by
  induction entries generalizing forms with
  | nil => rfl
  | cons entry rest ih =>
      obtain ⟨here, later⟩ := List.forall_mem_cons.mp pairs
      have two : "  ".toList = List.replicate 2 ' ' := rfl
      have first : Ledger.inside ((.curly, forms) :: outer) ⟨[], 2, [], false⟩ =
          some ⟨(.curly, forms + 2) :: outer, false⟩ := rfl
      rw [List.map_cons, List.flatMap_cons, Move.run_append, List.append_assoc, two, Move.run_spaces, Move.run_spaces,
        Ledger.run_inside, here, Option.bind_some, first, Option.bind_some, ← two, ih (forms + 2) later,
        List.length_cons, Nat.mul_add, Nat.add_assoc, Nat.add_comm 2]

theorem run_front (width : Nat) (outer : Frames)
    (pairs : ∀ entry ∈ entries, Ledger.of? (Lexeme.all entry) = some ⟨[], 2, [], false⟩) :
    Move.run Tally.make ⟨outer, false⟩ ((front width entries).flatMap Lexeme.all) =
      some ⟨around entries.length outer, false⟩ := by
  have opening : Move.run Tally.make ⟨outer, false⟩ (Lexeme.all opening) =
      some ⟨(.curly, 0) :: (.round, 2) :: outer, false⟩ := rfl
  have function (forms : Nat) (outer : Frames) :
      Move.run Tally.make ⟨(.curly, forms) :: outer, false⟩ (Lexeme.all "  :thunk (fn ()".toList) =
        some ⟨(.round, 2) :: (.curly, forms + 1) :: outer, false⟩ := rfl
  rw [front, List.flatMap_append, List.flatMap_append, List.flatMap_singleton, List.flatMap_singleton, Move.run_append,
    Move.run_append, Move.run_spaces, opening, Option.bind_some, run_entries width 0 _ pairs, Option.bind_some,
    Move.run_spaces, function, Nat.zero_add]
  rfl

theorem run_back (width : Nat) (t : Tally) :
    Move.run Tally.make t (Lexeme.all (back width)) =
      if t.quoted then none else (shut.settle t.frames).map (⟨·, false⟩) := by
  obtain ⟨frames, quoted⟩ := t
  have ledger : Ledger.of? (Lexeme.all closing) = some shut := rfl
  rw [back, Move.run_spaces]
  cases quoted with
  | true => rfl
  | false => exact (Ledger.run_inside frames _).trans (ledger ▸ Ledger.inside_eq_settle frames rfl)

theorem run_body (width count : Nat) (outer : Frames) (row : List Lexeme) :
    Move.run Tally.make ⟨around count outer, false⟩ (row ++ Lexeme.all (back width)) =
      (leave? outer count row).map (⟨·, false⟩) := by
  rw [Move.run_append, Ledger.run_inside, leave?, Option.bind_assoc, Option.map_bind]
  refine Option.bind_congr fun l _ => ?_
  cases quoted : l.quoted with
  | true =>
      have ends (frames : Frames) : Move.run Tally.make ⟨frames, true⟩ (Lexeme.all (back width)) = none :=
        run_back width ⟨frames, true⟩
      rw [Ledger.inside, Function.comp_apply, Ledger.settle, if_pos quoted, quoted, Option.bind_map]
      exact Option.bind_eq_none_iff.mpr fun frames _ => ends _
  | false =>
      rw [Ledger.inside_eq_settle _ quoted, Function.comp_apply, Option.bind_map, Option.map_bind]
      exact Option.bind_congr fun frames _ => run_back width ⟨frames, false⟩

theorem run_pieces (width : Nat) (outer : Frames)
    (pairs : ∀ entry ∈ entries, Ledger.of? (Lexeme.all entry) = some ⟨[], 2, [], false⟩) (value : List Char) :
    Move.run Tally.make ⟨outer, false⟩ ((pieces width entries value).flatMap Lexeme.all) =
      (leave? outer entries.length (Lexeme.all value)).map (⟨·, false⟩) := by
  rw [pieces_eq, List.flatMap_append, List.flatMap_cons, List.flatMap_singleton, Move.run_append,
    run_front width outer pairs, Option.bind_some, Move.run_append, Move.run_spaces, ← Move.run_append, run_body]

theorem run_lexemes (width : Nat) (outer : Frames) {blocks : List (List (List Char) × List Char)}
    (pairs : ∀ block ∈ blocks, ∀ entry ∈ block.1, Ledger.of? (Lexeme.all entry) = some ⟨[], 2, [], false⟩) :
    Move.run Tally.make ⟨outer, false⟩ (lexemes width blocks) =
      (through outer (blocks.map fun block => (block.1.length, Lexeme.all block.2))).map (⟨·, false⟩) := by
  induction blocks generalizing outer with
  | nil => rfl
  | cons block rest ih =>
      obtain ⟨here, later⟩ := List.forall_mem_cons.mp pairs
      rw [lexemes, List.flatMap_cons, Move.run_append, run_pieces width outer here, List.map_cons, through_cons,
        Option.map_bind, Option.bind_map]
      exact Option.bind_congr fun frames _ => ih frames later

theorem map_eq_initial {frames : Option Frames} :
    frames.map (fun frames => (⟨frames, false⟩ : Tally)) = some .initial ↔ frames = some [] := by
  simp [Tally.initial]

/-- Bodies that stay apart are read each in its place. -/
theorem reads_iff_through (width : Nat) {blocks : List (List (List Char) × List Char)}
    (pairs : ∀ block ∈ blocks, ∀ entry ∈ block.1, Ledger.of? (Lexeme.all entry) = some ⟨[], 2, [], false⟩)
    (plain : ∀ block ∈ blocks, ∀ entry ∈ block.1, ∀ lexeme ∈ Lexeme.all entry, lexeme.isPlain = true)
    (apart : blocks.Pairwise fun block later => Lexeme.closes (Lexeme.all block.2) later.2 = false) :
    (∃ forms, Form.read (String.ofList
        (Text.joinLines (blocks.flatMap fun block => pieces width block.1 block.2))) = .ok forms) ↔
      through [] (blocks.map fun block => (block.1.length, Lexeme.all block.2)) = some [] := by
  rw [Form.read_iff_tally]
  by_cases closed : ∀ block ∈ blocks, ∀ lexeme ∈ Lexeme.all block.2, lexeme.isStray = false
  · have closedPieces : ∀ piece ∈ blocks.flatMap fun block => pieces width block.1 block.2,
        ∀ lexeme ∈ Lexeme.all piece, lexeme.isStray = false := by
      intro piece member
      obtain ⟨block, isBlock, isPiece⟩ := List.mem_flatMap.mp member
      exact forall_enqueue_line width (fun _ => Lexeme.not_stray_of_plain)
        (fun entry isEntry lexeme member => Lexeme.not_stray_of_plain (plain block isBlock entry isEntry lexeme member))
        (closed block isBlock) piece isPiece
    have steps := Outline.steps_joinLines closedPieces .initial
    have tallied : Move.run Tally.make .initial (Lexeme.all
          (Text.joinLines (blocks.flatMap fun block => pieces width block.1 block.2))) =
        Move.run Tally.make .initial (lexemes width blocks) := by
      have left := Outline.tally_steps .initial (Lexeme.all
        (Text.joinLines (blocks.flatMap fun block => pieces width block.1 block.2)))
      have right := Outline.tally_steps .initial (lexemes width blocks)
      rw [steps, List.flatMap_assoc] at left
      exact left.symm.trans right
    rw [tallied]
    exact (run_lexemes width [] pairs) ▸ map_eq_initial
  · constructor
    · intro ran
      have closedPieces := Lexeme.closed_of_joinLines (pieces_apart plain apart) (Move.run_not_stray ran)
      refine absurd (fun block isBlock lexeme member => ?_) closed
      refine closedPieces (List.replicate (width + 4) ' ' ++ block.2)
        (List.mem_flatMap.mpr ⟨block, isBlock, by rw [pieces_eq]; simp⟩) lexeme ?_
      rw [Lexeme.all_spaces]
      exact List.mem_append_right _ member
    · intro passes
      exact absurd (List.forall_mem_map.mp (through_closed passes)) closed

/-- A string or comment that the first body leaves open and the second closes holds all that stands between them. -/
theorem reads_iff_merged (width : Nat) {later : List (List Char)} {input output : List Char}
    (pairs : ∀ entry ∈ entries, Ledger.of? (Lexeme.all entry) = some ⟨[], 2, [], false⟩)
    (plain : ∀ entry ∈ entries, ∀ lexeme ∈ Lexeme.all entry, lexeme.isPlain = true)
    (plainLater : ∀ entry ∈ later, ∀ lexeme ∈ Lexeme.all entry, lexeme.isPlain = true)
    (closes : Lexeme.closes (Lexeme.all input) output = true) :
    (∃ forms, Form.read (String.ofList
        (Text.joinLines ([(entries, input), (later, output)].flatMap fun block => pieces width block.1 block.2))) =
          .ok forms) ↔
      through [] [(entries.length, Lexeme.all (input ++ '\n' :: output))] = some [] := by
  obtain ⟨passed, kind, inner, body, after, isLiteral, split⟩ := Lexeme.all_of_closes closes
  obtain ⟨pad, isPad⟩ : ∃ pad, List.replicate (width + 4) ' ' = pad := ⟨_, rfl⟩
  obtain ⟨gap, isGap⟩ : ∃ gap, Text.joinLines (back width :: (front width later ++ [pad])) = gap := ⟨_, rfl⟩
  have whole : Text.joinLines ([(entries, input), (later, output)].flatMap fun block => pieces width block.1 block.2) =
      Text.joinLines (front width entries ++ [pad ++ (input ++ '\n' :: (gap ++ (output ++ '\n' :: back width)))]) := by
    rw [List.flatMap_cons, List.flatMap_singleton, pieces_eq, pieces_eq, isPad, List.append_assoc, List.cons_append,
      List.cons_append, List.nil_append, Text.joinLines_merge, ← isGap]
    simp [Text.joinLines_cons]
  have plainGap : ∀ lexeme ∈ Lexeme.all gap, lexeme.isPlain = true := by
    have lines : ∀ line ∈ back width :: (front width later ++ [pad]), ∀ lexeme ∈ Lexeme.all line,
        lexeme.isPlain = true := by
      refine List.forall_mem_cons.mpr ⟨back_plain width, List.forall_mem_append.mpr ⟨front_plain width plainLater, ?_⟩⟩
      rw [← isPad, ← List.append_nil (List.replicate _ _)]
      exact List.forall_mem_singleton.mpr (Lexeme.forall_indent (width + 4) rfl (by simp [Lexeme.all_nil]))
    have closed : ∀ line ∈ back width :: (front width later ++ [pad]), ∀ lexeme ∈ Lexeme.all line,
        lexeme.isStray = false :=
      fun line isLine lexeme member => Lexeme.not_stray_of_plain (lines line isLine lexeme member)
    rw [← isGap]
    exact Lexeme.forall_joinLines closed rfl lines
  have spread := split gap ('\n' :: back width) (Lexeme.not_mem_of_plain plainGap (by decide) (by decide))
    (Lexeme.not_mem_of_plain plainGap (by decide) (by decide))
    (Lexeme.not_mem_of_plain plainGap (by decide) (by decide))
  have row := split [] [] List.not_mem_nil List.not_mem_nil List.not_mem_nil
  rw [List.nil_append, List.nil_append, List.append_nil, List.append_nil] at row
  have closedFront : ∀ piece ∈ front width entries, ∀ lexeme ∈ Lexeme.all piece, lexeme.isStray = false :=
    fun piece isPiece lexeme member => Lexeme.not_stray_of_plain (front_plain width plain piece isPiece lexeme member)
  have one : through [] [(entries.length, Lexeme.all (input ++ '\n' :: output))] =
      leave? [] entries.length (Lexeme.all (input ++ '\n' :: output)) := Option.bind_fun_some _
  rw [Form.read_iff_tally, whole, one, Move.run_joinLines closedFront, Move.run_append, Tally.initial,
    run_front width [] pairs, Option.bind_some, ← isPad, Move.run_spaces, spread]
  by_cases closed : ∀ lexeme ∈ Lexeme.all after, lexeme.isStray = false
  · have behind : Move.run Tally.make ⟨around entries.length [], false⟩
          (passed ++ kind (inner ++ '\n' :: (gap ++ body)) :: Lexeme.all (after ++ '\n' :: back width)) =
        Move.run Tally.make ⟨around entries.length [], false⟩
          (Lexeme.all (input ++ '\n' :: output) ++ Lexeme.all (back width)) := by
      rw [Lexeme.all_append_break closed, Move.run_literal isLiteral _ passed _ (inner ++ '\n' :: body),
        ← List.cons_append, ← List.append_assoc, ← row, Move.run_append, Move.run_append]
      rfl
    rw [behind, run_body]
    exact map_eq_initial
  · have stray : ∃ lexeme ∈ Lexeme.all after, lexeme.isStray = true := by simpa using closed
    constructor
    · intro ran
      obtain ⟨lexeme, member, isStray⟩ := Lexeme.stray_before_break stray (Lexeme.closes_plain (back_plain width))
      have free := Move.run_not_stray ran lexeme (by simp [member])
      rw [free] at isStray
      cases isStray
    · intro leaves
      obtain ⟨lexeme, member, isStray⟩ := stray
      have free := leave?_closed leaves lexeme (by simp [row, member])
      rw [free] at isStray
      cases isStray

/-! ## One text -/

/-- How a text may leave the only function of an example: it closes the innermost groups around it and opens the like,
and each map literal is closed behind pairs. -/
def Fits (l : Ledger) : Prop :=
  l.quoted = false ∧
    ((l.closed = [] ∧ l.opened = []) ∨
      (∃ a b, l.closed = [(.round, a)] ∧ l.opened = [(.round, b)] ∧ l.added % 2 = 0) ∨
      (∃ a b n m, l.closed = [(.round, a), (.curly, n)] ∧ l.opened = [(.round, b), (.curly, m)] ∧
        n % 2 = 1 ∧ m % 2 = 1) ∨
      ∃ a b n m c d, l.closed = [(.round, a), (.curly, n), (.round, c)] ∧
        l.opened = [(.round, b), (.curly, m), (.round, d)] ∧ n % 2 = 1 ∧ m % 2 = 1)

theorem shut_settle {frames : Frames} :
    shut.settle frames = some [] ↔ ∃ a n b, frames = [(.round, a), (.curly, n), (.round, b)] ∧ n % 2 = 1 := by
  simp only [Ledger.settle_eq_some, shut, Ledger.leave_cons, Ledger.leave, Frames.mayClose_round, Frames.mayClose_curly,
    Option.some.injEq, List.nil_append, true_and]
  constructor
  · rintro ⟨left, ⟨a, _, rfl, n, _, rfl, even, b, rest, rfl, rfl⟩, none⟩
    cases rest with
    | nil => exact ⟨a, n, b, rfl, by omega⟩
    | cons frame more => cases none
  · rintro ⟨a, n, b, rfl, odd⟩
    exact ⟨[], ⟨a, _, rfl, n, _, rfl, by omega, b, _, rfl, rfl⟩, rfl⟩

/-- What is left of the groups around the only function of an example when some are closed. -/
theorem leave_around {closed left : Frames} :
    Ledger.leave closed (around 1 []) = some left ↔
      (closed = [] ∧ left = around 1 []) ∨
      (∃ a, closed = [(.round, a)] ∧ left = [(.curly, 3), (.round, 2)]) ∨
      (∃ a n, closed = [(.round, a), (.curly, n)] ∧ n % 2 = 1 ∧ left = [(.round, 2)]) ∨
      ∃ a n b, closed = [(.round, a), (.curly, n), (.round, b)] ∧ n % 2 = 1 ∧ left = [] := by
  constructor
  · intro leaves
    rcases closed with _ | ⟨⟨first, a⟩, closed⟩
    · cases leaves
      exact .inl ⟨rfl, rfl⟩
    obtain ⟨_, _, same, -, leaves⟩ := Ledger.leave_cons.mp leaves
    cases same
    rcases closed with _ | ⟨⟨second, n⟩, closed⟩
    · cases leaves
      exact .inr (.inl ⟨a, rfl, rfl⟩)
    obtain ⟨_, _, same, pairs, leaves⟩ := Ledger.leave_cons.mp leaves
    cases same
    have odd : (3 + n) % 2 = 0 := (Frames.mayClose_curly _).mp pairs
    rcases closed with _ | ⟨⟨third, b⟩, closed⟩
    · cases leaves
      exact .inr (.inr (.inl ⟨a, n, rfl, by omega, rfl⟩))
    obtain ⟨_, _, same, -, leaves⟩ := Ledger.leave_cons.mp leaves
    cases same
    rcases closed with _ | ⟨group, closed⟩
    · cases leaves
      exact .inr (.inr (.inr ⟨a, n, b, rfl, by omega, rfl⟩))
    · cases leaves
  · have pairs {n : Nat} (odd : n % 2 = 1) : Frames.mayClose .curly (2 * 1 + 1 + n) = true :=
      (Frames.mayClose_curly _).mpr (by omega)
    rintro (⟨rfl, rfl⟩ | ⟨a, rfl, rfl⟩ | ⟨a, n, rfl, odd, rfl⟩ | ⟨a, n, b, rfl, odd, rfl⟩)
    · rfl
    · rfl
    all_goals simp [Ledger.leave, around, Frames.mayClose_round, pairs odd]

theorem settle_shut_iff_fits {l : Ledger} :
    ((l.settle (around 1 [])).bind fun inner => shut.settle inner) = some [] ↔ Fits l := by
  obtain ⟨closed, added, opened, quoted⟩ := l
  simp only [Option.bind_eq_some_iff, shut_settle]
  simp only [Ledger.settle_eq_some, leave_around, Fits]
  constructor
  · rintro ⟨_, ⟨unquoted, left, leaves, rfl⟩, a, n, b, ends, odd⟩
    refine ⟨unquoted, ?_⟩
    rcases leaves with ⟨rfl, rfl⟩ | ⟨c, rfl, rfl⟩ | ⟨c, m, rfl, odd', rfl⟩ | ⟨c, m, d, rfl, odd', rfl⟩
    · have split : opened ++ _ = [] ++ [(.round, a), (.curly, n), (.round, b)] := ends
      exact .inl ⟨rfl, (List.append_inj' split rfl).1⟩
    · have split : opened ++ _ = [(.round, a)] ++ [(.curly, n), (.round, b)] := ends
      obtain ⟨rfl, same⟩ := List.append_inj' split rfl
      cases same
      have odd' : (3 + added) % 2 = 1 := odd
      exact .inr (.inl ⟨c, a, rfl, rfl, by omega⟩)
    · have split : opened ++ _ = [(.round, a), (.curly, n)] ++ [(.round, b)] := ends
      obtain ⟨rfl, _⟩ := List.append_inj' split rfl
      exact .inr (.inr (.inl ⟨c, a, m, n, rfl, rfl, odd', odd⟩))
    · have split : opened ++ _ = [(.round, a), (.curly, n), (.round, b)] ++ [] := ends
      obtain ⟨rfl, _⟩ := List.append_inj' split rfl
      exact .inr (.inr (.inr ⟨c, a, m, n, d, b, rfl, rfl, odd', odd⟩))
  · rintro ⟨unquoted, ⟨rfl, rfl⟩ | ⟨a, b, rfl, rfl, even⟩ | ⟨a, b, n, m, rfl, rfl, odd, odd'⟩ |
      ⟨a, b, n, m, c, d, rfl, rfl, odd, odd'⟩⟩
    · exact ⟨_, ⟨unquoted, _, .inl ⟨rfl, rfl⟩, rfl⟩, _, 3, _, rfl, rfl⟩
    · have odd : (3 + added) % 2 = 1 := by omega
      exact ⟨_, ⟨unquoted, _, .inr (.inl ⟨a, rfl, rfl⟩), rfl⟩, b, 3 + added, _, rfl, odd⟩
    · exact ⟨_, ⟨unquoted, _, .inr (.inr (.inl ⟨a, n, rfl, odd, rfl⟩)), rfl⟩, b, m, _, rfl, odd'⟩
    · exact ⟨_, ⟨unquoted, _, .inr (.inr (.inr ⟨a, n, c, rfl, odd, rfl⟩)), rfl⟩, b, m, d, rfl, odd'⟩

end Harness

/-! ## Examples -/

/-- The texts of an example as its code holds them: the number of entries before each function, and the lexemes of its
body. An output that closes what the input leaves open stands in the input's function. -/
def Example.rows (e : Example) : List (Nat × List Lexeme) :=
  match e.output with
  | none => [(1, Lexeme.all e.input.value)]
  | some output =>
      if Lexeme.closes (Lexeme.all e.input.value) output.value then
        [(1, Lexeme.all (e.input.value ++ '\n' :: output.value))]
      else [(1, Lexeme.all e.input.value), (3, Lexeme.all output.value)]

/-- Nothing is left open behind the code for an example, and nothing is closed that is not open. -/
def Example.Settles (e : Example) : Prop := Harness.through [] e.rows = some []

instance (e : Example) : Decidable e.Settles := inferInstanceAs (Decidable (_ = _))

namespace Harness

theorem blocks_pairs (e : Example) :
    ∀ block ∈ blocks e, ∀ entry ∈ block.1, Ledger.of? (Lexeme.all entry) = some ⟨[], 2, [], false⟩ := by
  refine List.forall_mem_cons.mpr ⟨List.forall_mem_singleton.mpr rfl, List.forall_mem_map.mpr fun output _ => ?_⟩
  intro entry member
  simp only [List.mem_cons, List.not_mem_nil, or_false] at member
  rcases member with rfl | rfl | rfl
  · rfl
  · exact Form.ledger_of_read (read_line _)
  · exact Form.ledger_of_read (read_negate _)

theorem code_reads_iff (width : Nat) {e : Example} (isTest : isDeclaration e.input.value = false) :
    (∃ forms, Form.read (String.ofList (code width e)) = .ok forms) ↔ e.Settles := by
  rw [code_eq width isTest, Example.Settles]
  have pairs := blocks_pairs e
  have plain := blocks_plain e
  obtain ⟨comment, negate, input, output⟩ := e
  cases output with
  | none => exact reads_iff_through width pairs plain (List.pairwise_singleton _ _)
  | some output =>
      obtain ⟨pairsHere, _⟩ := List.forall_mem_cons.mp pairs
      obtain ⟨plainHere, plainLater⟩ := List.forall_mem_cons.mp plain
      by_cases closes : Lexeme.closes (Lexeme.all input.value) output.value = true
      · have rows : Example.rows ⟨comment, negate, input, some output⟩ =
            [(1, Lexeme.all (input.value ++ '\n' :: output.value))] := if_pos closes
        rw [rows]
        exact reads_iff_merged width pairsHere plainHere (plainLater _ List.mem_cons_self) closes
      · have rows : Example.rows ⟨comment, negate, input, some output⟩ =
            [(1, Lexeme.all input.value), (3, Lexeme.all output.value)] := if_neg closes
        rw [rows]
        exact reads_iff_through width pairs plain (List.pairwise_pair.mpr (Bool.eq_false_iff.mpr closes))

theorem settles_alone {e : Example} (alone : e.output = none) :
    e.Settles ↔ ∃ l, Ledger.of? (Lexeme.all e.input.value) = some l ∧ Fits l := by
  have one : through [] e.rows = leave? [] 1 (Lexeme.all e.input.value) := by
    rw [Example.rows, alone, through_cons]
    exact Option.bind_fun_some _
  rw [Example.Settles, one, leave?, Option.bind_eq_some_iff]
  exact exists_congr fun l => and_congr_right fun _ => settle_shut_iff_fits

/-- A declaration is read as it is written, and nothing of its expected result. The code for another example is a
program exactly when its texts settle. It reads as its forms when its texts are programs. When they are not, it is no
program if they stay apart and contained, and if the input stands alone, unless the input fits into its function. -/
theorem code_contains (width : Nat) (e : Example) :
    (isDeclaration e.input.value = true → code width e = List.replicate width ' ' ++ e.input.value ∧
      ∃ forms, Form.read (String.ofList e.input.value) = .ok forms ∧
        Form.read (String.ofList (code width e)) = .ok forms) ∧
    (isDeclaration e.input.value = false →
      (e.Settles → ∃ forms, Form.read (String.ofList (code width e)) = .ok forms) ∧
      (¬ e.Settles → ∃ fault, Form.read (String.ofList (code width e)) = .error fault) ∧
      (Readable e → Form.read (String.ofList (code width e)) = .ok (forms e)) ∧
      (e.Apart → e.Contained → ¬ Readable e → ∃ fault, Form.read (String.ofList (code width e)) = .error fault) ∧
      (e.output = none → (e.Settles ↔ ∃ l, Ledger.of? (Lexeme.all e.input.value) = some l ∧ Fits l))) := by
  have fails (unread : ¬ ∃ forms, Form.read (String.ofList (code width e)) = .ok forms) :
      ∃ fault, Form.read (String.ofList (code width e)) = .error fault := by
    cases read : Form.read (String.ofList (code width e)) with
    | error fault => exact ⟨fault, rfl⟩
    | ok forms => exact absurd ⟨forms, read⟩ unread
  refine ⟨fun declared => ?_, fun isTest => ⟨(code_reads_iff width isTest).mpr, fun unsettled => ?_, code_reads width,
    fun apart contained broken => ?_, settles_alone⟩⟩
  · have same : code width e = List.replicate width ' ' ++ e.input.value := by
      unfold code
      dsimp only
      rw [if_pos declared]
    obtain ⟨forms, read⟩ : ∃ forms, Form.read (String.ofList e.input.value) = .ok forms := by
      unfold isDeclaration at declared
      split at declared
      · next found => exact ⟨_, found⟩
      · cases declared
    exact ⟨same, forms, read, by rw [same]; exact Form.read_indent width read⟩
  · exact fails fun read => unsettled ((code_reads_iff width isTest).mp read)
  · refine fails ?_
    rintro ⟨_, read⟩
    exact broken (readable_of_code isTest apart contained read)

/-- Brackets too many, of the wrong kind, and in a map literal that holds a key alone. -/
theorem code_contains_unbalanced :
    (∃ e : Example, e = ⟨0, false, ⟨"(+ 1 2))".toList, .ofLine 1⟩, some ⟨"3".toList, .ofLine 2⟩⟩ ∧
      e.Apart ∧ e.Contained ∧ ¬ Readable e ∧ ∃ fault, Form.read (String.ofList (code 0 e)) = .error fault) ∧
    (∃ e : Example, e = ⟨0, false, ⟨"1] [2".toList, .ofLine 1⟩, some ⟨"3".toList, .ofLine 2⟩⟩ ∧
      ¬ e.Contained ∧ ¬ e.Settles ∧ ∃ fault, Form.read (String.ofList (code 0 e)) = .error fault) ∧
    ∃ e : Example, e = ⟨0, false, ⟨") (".toList, .ofLine 1⟩, some ⟨"1".toList, .ofLine 2⟩⟩ ∧
      ¬ e.Contained ∧ ¬ e.Settles ∧ ∃ fault, Form.read (String.ofList (code 0 e)) = .error fault :=
  ⟨⟨_, rfl, by decide, by decide, by decide,
      ((code_contains 0 _).2 (by decide)).2.2.2.1 (by decide) (by decide) (by decide)⟩,
    ⟨_, rfl, by decide, by decide, ((code_contains 0 _).2 (by decide)).2.1 (by decide)⟩,
    _, rfl, by decide, by decide, ((code_contains 0 _).2 (by decide)).2.1 (by decide)⟩

/-- Examples that are no programs with code that is one: the expected result of a declaration is not part of it, an
input can close the groups around it and open others, and an expected result can close the comment of the input. -/
theorem code_hides_faults :
    (∃ e : Example, e = ⟨0, false, ⟨"(define x 1)".toList, .ofLine 1⟩, some ⟨")".toList, .ofLine 2⟩⟩ ∧
      ¬ Readable e ∧ ∃ forms, Form.read (String.ofList (code 0 e)) = .ok forms) ∧
    (∃ e : Example,
        e = ⟨0, false, ⟨"nil)".toList ++ '}' :: ") (boom) (f ".toList ++ '{' :: ":a (fn ()".toList, .ofLine 1⟩, none⟩ ∧
      ¬ Readable e ∧ ∃ forms, Form.read (String.ofList (code 0 e)) = .ok forms ∧
        forms.map Form.head? = [some "enqueue!", some "boom", some "f"]) ∧
    ∃ e : Example, e = ⟨0, false, ⟨"nil #|".toList, .ofLine 1⟩, some ⟨"|#".toList, .ofLine 2⟩⟩ ∧
      ¬ Readable e ∧ ∃ forms, Form.read (String.ofList (code 0 e)) = .ok forms := by
  refine ⟨⟨_, rfl, by decide, readable_iff.mp (by decide)⟩, ⟨_, rfl, by decide, ?_⟩, _, rfl, by decide,
    readable_iff.mp (by decide +kernel)⟩
  have isTest : isDeclaration ("nil)".toList ++ '}' :: ") (boom) (f ".toList ++ '{' :: ":a (fn ()".toList) = false := by
    decide
  rw [code_eq 0 isTest]
  exact ⟨[_, _, _], Form.read_ok_iff.mpr ⟨rfl, rfl⟩, rfl⟩

end Harness

end Exemplar
