/-!
# Numerals

A number may be written with leading zeros, which C would take for the mark of an octal constant.
The decimal form of a numeral has no leading zeros before its point, except for a single zero that
would otherwise leave the place before the point empty.
-/

namespace TeenyBasic.Numeral

/-- The digits before the point without leading zeros, and a zero if none is left. -/
def trimWhole (whole : List Char) : List Char :=
  match whole.dropWhile (· = '0') with
  | [] => ['0']
  | digits => digits

/-- A spelling without leading zeros before its point. -/
def decimalChars (spelling : List Char) : List Char :=
  trimWhole (spelling.takeWhile (· ≠ '.')) ++ spelling.dropWhile (· ≠ '.')

/-- The decimal form of a numeral. -/
def decimal (spelling : String) : String :=
  String.ofList (decimalChars spelling.toList)

theorem trimWhole_ne_nil (whole : List Char) : trimWhole whole ≠ [] := by
  unfold trimWhole
  split <;> simp_all

end TeenyBasic.Numeral
