import TeenyBasic.Numeral
import TeenyBasic.Generate.Basic

/-!
# Generating expressions

    comparison  ::=  expression { relation expression }, at least once
    expression  ::=  term { ("+" | "-") term }
    term        ::=  unary { ("*" | "/") unary }
    unary       ::=  [ "+" | "-" ] primary
    primary     ::=  number | identifier

An expression is written as the spellings of its tokens without spaces, with two exceptions: numbers
are written in their decimal form, and a sign is separated from an equal operator before it, since C
would read the two as one operator.
-/

namespace TeenyBasic.Generate

variable {σ : Type} [TokenSupply σ]

/-- A number, or a variable that has a value. -/
def primary : Generate σ Unit := do
  let state ← get
  match state.current.kind with
  | .number =>
    let token ← advance
    write (Numeral.decimal token.spelling)
  | .identifier =>
    let name := state.current.spelling
    if state.scope.declaredVariables.contains name then
      let token ← advance
      write token.spelling
    else failAt (.undeclared name state.scope.declaredVariables.names) state.current.location
  | _ => unexpected "a number or variable"

/-- A primary with at most one sign. -/
def unary : Generate σ Unit := do
  if (← kind).isAdditive then
    let sign ← advance
    write sign.spelling
  primary

/-- Products and quotients. -/
def term : Generate σ Unit := do
  unary
  loopWhile Kind.isMultiplicative do
    let operator ← advance
    write operator.spelling
    unary

/-- Sums and differences. -/
def expression : Generate σ Unit := do
  term
  loopWhile Kind.isAdditive do
    let operator ← advance
    write operator.spelling
    if ← check operator.kind then write " "
    term

/-- A chain of comparisons. -/
def comparison : Generate σ Unit := do
  expression
  unless (← kind).isComparison do unexpected "a comparison operator"
  loopWhile Kind.isComparison do
    let relation ← advance
    write relation.spelling
    expression

end TeenyBasic.Generate
