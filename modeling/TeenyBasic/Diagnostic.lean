import TeenyBasic.Location
import TeenyBasic.Similarity.Ranking
import TeenyBasic.Text.Quoted

/-!
# Diagnostics

Everything that can be wrong with a program, or with writing its result, is one of a fixed list of
causes. A cause determines the text of the message and the hint that may follow it; a diagnostic
adds the place of the fault and the source line that holds it.

A report is the message behind its place, then the source line indented by four spaces with a caret
under the faulty column, then the hint:

    average.teeny:4:9: error: undeclared variable 'nums'
        LET a = nums + 1
                ^
    hint: did you mean 'num'?
-/

namespace TeenyBasic

/-- The families of causes. -/
inductive Family where
  | lexical
  | syntactic
  | semantic
  | output
  | other
  deriving DecidableEq, Repr

/-- What is wrong. -/
inductive Cause where
  /-- A character that starts no token. -/
  | unsupportedCharacter (char : String) (hint : Option String)
  /-- A character that may not stand inside a string. -/
  | forbiddenInString (char : String)
  /-- A decimal point that no digit follows. -/
  | missingFraction
  /-- A token that does not fit the grammar. -/
  | unexpectedToken (expected found : String)
  /-- A block inside more blocks than are allowed. -/
  | nestedTooDeeply (limit : Int)
  /-- A variable that is read before any statement gives it a value. -/
  | undeclaredVariable (name : String) (similar : List String)
  /-- A label that is declared a second time. -/
  | duplicateLabel (name : String) (first : Option Location)
  /-- A jump to a label that is declared nowhere. -/
  | undefinedLabel (name : String)
  /-- A name that the generated program cannot use. -/
  | reservedName (name : String)
  /-- A result that is to be written nowhere. -/
  | unconfigured
  /-- A result that cannot be written. -/
  | unwritable (path reason : String)
  /-- A fault stated in words of its own. -/
  | stated (family : Family) (text : String) (hint : Option String)
  deriving DecidableEq, Repr

namespace Cause

/-- The family of a cause. -/
def family : Cause → Family
  | .unsupportedCharacter .. | .forbiddenInString .. | .missingFraction => .lexical
  | .unexpectedToken .. | .nestedTooDeeply .. => .syntactic
  | .undeclaredVariable .. | .duplicateLabel .. | .undefinedLabel .. | .reservedName .. => .semantic
  | .unconfigured | .unwritable .. => .output
  | .stated family .. => family

/-- The cause of reading a variable that has no value, with the known names most like it. -/
def undeclared (name : String) (known : List String) : Cause :=
  .undeclaredVariable name (Similarity.closest Similarity.defaultLimit name known)

/-- The text of the message. -/
def text : Cause → String
  | .unsupportedCharacter char _ => s!"unsupported character {Text.quoted char}"
  | .forbiddenInString char => s!"unsupported character in string: {Text.quoted char}"
  | .missingFraction => "numbers must have at least one digit after the decimal point"
  | .unexpectedToken expected found => s!"expected {expected}, got {found}"
  | .nestedTooDeeply limit => s!"blocks nested too deeply (limit is {limit})"
  | .undeclaredVariable name _ => s!"undeclared variable '{name}'"
  | .duplicateLabel name _ => s!"duplicate label '{name}'"
  | .undefinedLabel name => s!"GOTO target '{name}' is never declared"
  | .reservedName name => s!"'{name}' is reserved in the generated C program"
  | .unconfigured => "cannot write output file '<none>': no output path configured"
  | .unwritable path reason => s!"cannot write output file '{path}': {reason}"
  | .stated _ text _ => text

/-- Names in a row, each between apostrophes. -/
def enumerate (names : List String) : String :=
  ", ".intercalate (names.map fun name ↦ s!"'{name}'")

/-- The hint that goes with the message. -/
def hint : Cause → Option String
  | .unsupportedCharacter _ hint => hint
  | .forbiddenInString char =>
    some <| if char = "\n" then "string literals must be closed with '\"' on the same line"
      else "strings may not contain '%', '\\', tabs or line breaks"
  | .missingFraction => some "write '9.0' instead of '9.'"
  | .unexpectedToken .. | .nestedTooDeeply .. | .unconfigured | .unwritable .. => none
  | .undeclaredVariable name [] =>
    some s!"assign it first with 'LET {name} = ...' or 'INPUT {name}'"
  | .undeclaredVariable _ similar => some s!"did you mean {enumerate similar}?"
  | .duplicateLabel name first =>
    first.map fun location ↦ s!"'{name}' was first declared at {location.text}"
  | .undefinedLabel name => some s!"add 'LABEL {name}' somewhere in the program"
  | .reservedName name => some s!"rename '{name}', for example to '{name}1'"
  | .stated _ _ hint => hint

end Cause

/-- A cause with the place of the fault and the source line that holds it, as far as they are
known. -/
structure Diagnostic where
  cause : Cause
  location : Option Location
  sourceLine : Option String
  deriving DecidableEq, Repr

namespace Diagnostic

/-- The first line of a report. -/
def headline (d : Diagnostic) : String :=
  match d.location with
  | some location => s!"{location.text}: error: {d.cause.text}"
  | none => s!"error: {d.cause.text}"

/-- The source line and the caret under the faulty column. -/
def excerpt (d : Diagnostic) : List String :=
  match d.sourceLine, d.location with
  | some line, some location =>
    let shown := "    " ++ line
    if 0 < location.column then
      [shown, String.ofList (List.replicate (location.column.toNat + 3) ' ') ++ "^"]
    else [shown]
  | _, _ => []

/-- The line of a report that gives the hint; an empty hint gives none. -/
def advice (d : Diagnostic) : List String :=
  match d.cause.hint with
  | none | some "" => []
  | some hint => [s!"hint: {hint}"]

/-- The whole report, its lines separated by line feeds. -/
def report (d : Diagnostic) : String :=
  "\n".intercalate (d.headline :: (d.excerpt ++ d.advice))

end Diagnostic

end TeenyBasic
