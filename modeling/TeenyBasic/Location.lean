/-!
# Places in a source text

Lines and columns are counted from one. A place may also be given from outside, so they are
integers rather than natural numbers.
-/

namespace TeenyBasic

/-- A place in a source text: the name of the text, a line and a column. -/
structure Location where
  file : String
  line : Int
  column : Int
  deriving DecidableEq, Repr, Inhabited

/-- A place as messages show it. -/
def Location.text (location : Location) : String :=
  s!"{location.file}:{location.line}:{location.column}"

/-- The name of a text that comes from no file. -/
def inputName : String := "<input>"

end TeenyBasic
