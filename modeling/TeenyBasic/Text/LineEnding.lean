/-!
# Line endings

Source files may end their lines in a line feed, in a carriage return, or in a carriage return
followed by a line feed. Reading a file turns each of these endings into a single line feed.
-/

namespace TeenyBasic.Text

/-- Writes every line ending as a line feed. -/
def unifyLineEndings : List Char → List Char
  | [] => []
  | '\r' :: '\n' :: rest => '\n' :: unifyLineEndings rest
  | '\r' :: rest => '\n' :: unifyLineEndings rest
  | c :: rest => c :: unifyLineEndings rest

theorem unifyLineEndings_of_not_mem (text : List Char) (h : '\r' ∉ text) :
    unifyLineEndings text = text := by
  fun_induction unifyLineEndings text <;> simp_all

end TeenyBasic.Text
