import TeenyBasic.Generate.Statement

/-!
# Generating programs

    program  ::=  { newline } { statement } end of input

The statements become the body of the main function. When the last one has been written, every
jump must go to a label that is declared somewhere in the program.
-/

namespace TeenyBasic.Generate

/-- The lines before the declarations of variables. -/
def prologue : List String :=
  ["#include <stdio.h>", "int main(int argc, char *argv[]) \x7b"]

/-- The lines after the last statement. -/
def epilogue : List String :=
  ["return 0;", "\x7d"]

variable {σ : Type} [TokenSupply σ]

/-- Statements up to the end of the input, between the prologue and the epilogue. -/
def program : Generate σ Unit := do
  prologue.forM declare
  loopWhile (· ≠ .endOfInput) statement
  epilogue.forM writeLine

/-- A whole source text. -/
def sourceText : Generate σ Unit := do
  skipNewlines
  program
  checkLabels

end TeenyBasic.Generate
