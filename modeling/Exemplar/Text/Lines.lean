/-!
# Texts cut at a character

A text, of characters or of bytes, is its fields with a separator between each two. A text without a separator is one
field. Lines are the fields between line feeds.
-/

namespace Exemplar.Text

variable {α : Type} [DecidableEq α]

/-- The fields of a text, without the separators. -/
def split (separator : α) : List α → List (List α)
  | [] => [[]]
  | c :: rest =>
      if c = separator then [] :: split separator rest
      else
        match split separator rest with
        | [] => [[c]]
        | field :: more => (c :: field) :: more

/-- The text with the given fields. -/
def join (separator : α) : List (List α) → List α
  | [] => []
  | [field] => field
  | field :: rest => field ++ separator :: join separator rest

/-- The lines of a text, without their line feeds. -/
def lines (text : List Char) : List (List Char) := split '\n' text

def joinLines (lines : List (List Char)) : List Char := join '\n' lines

/-- The text without one final line feed. -/
def dropFinalBreak (text : List Char) : List Char :=
  if text.getLast? = some '\n' then text.dropLast else text

theorem joinLines_cons_cons (line second : List Char) (more : List (List Char)) :
    joinLines (line :: second :: more) = line ++ '\n' :: joinLines (second :: more) := rfl

theorem split_ne_nil (separator : α) (text : List α) : split separator text ≠ [] := by
  cases text with
  | nil => simp [split]
  | cons c rest =>
      simp only [split]
      split
      · simp
      · split <;> simp

theorem join_split (separator : α) (text : List α) :
    join separator (split separator text) = text := by
  induction text with
  | nil => rfl
  | cons c rest ih =>
      have nonempty := split_ne_nil separator rest
      cases cut : split separator rest with
      | nil => exact absurd cut nonempty
      | cons field more =>
          rw [cut] at ih
          simp only [split, cut]
          split
          · next same => subst same; simp [join, ih]
          · cases more with
            | nil => simpa [join] using ih
            | cons second others => simpa [join] using ih

theorem split_append (separator : α) (left right : List α) :
    split separator (left ++ separator :: right) = split separator left ++ split separator right := by
  induction left with
  | nil => simp [split]
  | cons c rest ih =>
      rw [List.cons_append, split, split, ih]
      split
      · rfl
      · cases cut : split separator rest with
        | nil => exact absurd cut (split_ne_nil separator rest)
        | cons field more => rfl

theorem split_of_not_mem {separator : α} {text : List α} (unbroken : separator ∉ text) :
    split separator text = [text] := by
  induction text with
  | nil => rfl
  | cons c rest ih =>
      rw [List.mem_cons, not_or] at unbroken
      rw [split, if_neg (Ne.symm unbroken.1), ih unbroken.2]

/-- The last field of a text goes on with the first of the text behind it. -/
theorem split_append_fields {separator : α} {left right last first : List α} {before after : List (List α)}
    (leftFields : split separator left = before ++ [last]) (rightFields : split separator right = first :: after) :
    split separator (left ++ right) = before ++ (last ++ first) :: after := by
  induction left generalizing before last with
  | nil =>
      obtain ⟨rfl, rfl⟩ : before = [] ∧ last = [] := by
        cases before with
        | nil => simpa [split] using leftFields.symm
        | cons field more => simp [split] at leftFields
      exact rightFields
  | cons c rest ih =>
      rw [split] at leftFields
      rw [List.cons_append, split]
      split
      · next same =>
          rw [if_pos same] at leftFields
          cases before with
          | nil => exact absurd (List.cons.inj leftFields).2 (split_ne_nil separator rest)
          | cons field more =>
              obtain ⟨rfl, later⟩ := List.cons.inj leftFields
              rw [ih later]
              rfl
      · next other =>
          rw [if_neg other] at leftFields
          cases cut : split separator rest with
          | nil => exact absurd cut (split_ne_nil separator rest)
          | cons field more =>
              rw [cut] at leftFields
              cases before with
              | nil =>
                  obtain ⟨rfl, rfl⟩ := List.cons.inj leftFields
                  have alone : split separator rest = [] ++ [field] := cut
                  rw [ih alone]
                  rfl
              | cons head others =>
                  obtain ⟨rfl, rfl⟩ := List.cons.inj leftFields
                  have several : split separator rest = (field :: others) ++ [last] := cut
                  rw [ih several]
                  rfl

theorem mem_of_mem_split {separator c : α} {text field : List α} (member : field ∈ split separator text)
    (inside : c ∈ field) : c ∈ text ∧ c ≠ separator := by
  induction text generalizing field with
  | nil =>
      rw [split, List.mem_singleton] at member
      rw [member] at inside
      cases inside
  | cons d rest ih =>
      rw [split] at member
      split at member
      · rcases List.mem_cons.mp member with rfl | later
        · cases inside
        · exact ⟨List.mem_cons_of_mem _ (ih later inside).1, (ih later inside).2⟩
      · next other =>
          cases cut : split separator rest with
          | nil => exact absurd cut (split_ne_nil separator rest)
          | cons first more =>
              rw [cut] at member
              rcases List.mem_cons.mp member with rfl | later
              · rcases List.mem_cons.mp inside with rfl | within
                · exact ⟨by simp, other⟩
                · have := ih (by rw [cut]; exact List.mem_cons_self) within
                  exact ⟨List.mem_cons_of_mem _ this.1, this.2⟩
              · have := ih (by rw [cut]; exact List.mem_cons_of_mem _ later) inside
                exact ⟨List.mem_cons_of_mem _ this.1, this.2⟩

end Exemplar.Text
