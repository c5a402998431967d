/-!
# Lines

The lines of a text are the pieces between its line feeds, so that a text with `n` line feeds has
`n + 1` lines, of which the last may be empty.
-/

namespace TeenyBasic.Text

/-- The lines of a text. -/
def lines : List Char → List (List Char)
  | [] => [[]]
  | c :: rest =>
    if c = '\n' then [] :: lines rest
    else
      match lines rest with
      | [] => [[c]]
      | first :: others => (c :: first) :: others

/-- The line with the given number, counted from one. -/
def line? (text : List Char) (number : Int) : Option String :=
  if 0 < number then (lines text)[number.toNat - 1]?.map String.ofList else none

theorem length_lines (text : List Char) : (lines text).length = text.count '\n' + 1 := by
  induction text with
  | nil => rfl
  | cons c rest ih =>
    unfold lines
    split
    · simp_all
    · split <;> simp_all

theorem head?_lines (text : List Char) : (lines text).head? = some (text.takeWhile (· ≠ '\n')) := by
  induction text with
  | nil => rfl
  | cons c rest ih =>
    unfold lines
    split
    · simp_all
    · split <;> simp_all

end TeenyBasic.Text
