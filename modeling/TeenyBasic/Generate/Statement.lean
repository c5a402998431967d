import TeenyBasic.Generate.Expression

/-!
# Generating statements

    statement  ::=  "PRINT" (expression | string) newline
                 |  "IF" comparison "THEN" newline { statement } "ENDIF" newline
                 |  "WHILE" comparison "REPEAT" newline { statement } "ENDWHILE" newline
                 |  "LABEL" identifier newline
                 |  "GOTO" identifier newline
                 |  "LET" identifier "=" expression newline
                 |  "INPUT" identifier newline

A newline stands for one line end or more. Names are checked where they occur, except for the
targets of jumps, which may be declared later and are checked when the program has ended.

Statements contain blocks and blocks contain statements. A statement is therefore defined over a
way to generate the blocks inside it, and blocks are defined by recursion on how deep they may still
be nested, a number that the supply of tokens bounds.
-/

namespace TeenyBasic.Generate

variable {σ : Type} [TokenSupply σ]

/-- Fails if the name of a token is closed to it. -/
def checkName (token : Token) (reserved : List String) : Generate σ Unit := do
  if token.spelling ∈ reserved then failAt (.reservedName token.spelling) token.location

/-- Enters a variable into the scope and declares it, unless it is known. -/
def declareVariable (token : Token) : Generate σ Unit := do
  let name := token.spelling
  unless (← get).scope.declaredVariables.contains name do
    checkName token Reserved.variableNames
    modify fun state ↦
      { state with
        scope := { state.scope with
          declaredVariables := state.scope.declaredVariables.insertNew name token.location }
        events := state.events.push (.declaredVariable name token.location) }
    declare s!"float {name};"

/-- Fails if some jump goes to a label that is declared nowhere. -/
def checkLabels : Generate σ Unit := do
  let scope := (← get).scope
  match scope.unresolved with
  | [] => return
  | name :: _ =>
    match scope.referencedLabels.find? name with
    | some location => failAt (.undefinedLabel name) location
    | none => return

/-- PRINT with a string or an expression. -/
def printStatement : Generate σ Unit := do
  let _ ← expect (.keyword .PRINT)
  if ← check .string then
    let token ← advance
    writeLine s!"printf(\"{token.spelling}\\n\");"
  else
    let format := (← read).numberFormat
    write s!"printf(\"{format}\\n\", (float)("
    expression
    writeLine "));"

/-- LABEL with a name that no other LABEL has. -/
def labelStatement : Generate σ Unit := do
  let _ ← expect (.keyword .LABEL)
  let token ← expect .identifier
  checkName token Reserved.labelNames
  let name := token.spelling
  let labels := (← get).scope.declaredLabels
  if labels.contains name then failAt (.duplicateLabel name (labels.find? name)) token.location
  modify fun state ↦
    { state with
      scope := { state.scope with
        declaredLabels := state.scope.declaredLabels.insertNew name token.location }
      events := state.events.push (.declaredLabel name token.location) }
  writeLine s!"{name}:"

/-- GOTO with the name of a label. -/
def gotoStatement : Generate σ Unit := do
  let _ ← expect (.keyword .GOTO)
  let token ← expect .identifier
  checkName token Reserved.labelNames
  modify fun state ↦
    { state with
      scope := { state.scope with
        referencedLabels := state.scope.referencedLabels.insertNew token.spelling token.location } }
  writeLine s!"goto {token.spelling};"

/-- LET with a variable and an expression, in which the variable already counts as known. -/
def letStatement : Generate σ Unit := do
  let _ ← expect (.keyword .LET)
  let token ← expect .identifier
  declareVariable token
  write s!"{token.spelling} = "
  let _ ← expect (.operator .assign)
  expression
  writeLine ";"

/-- INPUT with a variable. Input that is no number sets the variable to zero and is passed over. -/
def inputStatement : Generate σ Unit := do
  let _ ← expect (.keyword .INPUT)
  let token ← expect .identifier
  declareVariable token
  let name := token.spelling
  writeLine s!"if (0 == scanf(\"%f\", &{name})) \x7b"
  writeLine s!"{name} = 0;"
  writeLine "scanf(\"%*s\");"
  writeLine "\x7d"

/-- The head of a block: the opening keyword, the condition and the keyword behind it. -/
def condition (opening closing : Keyword) (text : String) : Generate σ Unit := do
  let _ ← expect (.keyword opening)
  write text
  comparison
  let _ ← expect (.keyword closing)
  newline
  writeLine ") \x7b"

/-- IF with its block. -/
def ifStatement (block : Kind → Generate σ Unit) : Generate σ Unit := do
  condition .IF .THEN "if ("
  block (.keyword .ENDIF)
  writeLine "\x7d"

/-- WHILE with its block. -/
def whileStatement (block : Kind → Generate σ Unit) : Generate σ Unit := do
  condition .WHILE .REPEAT "while ("
  block (.keyword .ENDWHILE)
  writeLine "\x7d"

/-- A statement up to the end of its line, given a way to generate blocks. -/
def statementWith (block : Kind → Generate σ Unit) : Generate σ Unit := do
  match ← kind with
  | .keyword .PRINT => printStatement
  | .keyword .IF => ifStatement block
  | .keyword .WHILE => whileStatement block
  | .keyword .LABEL => labelStatement
  | .keyword .GOTO => gotoStatement
  | .keyword .LET => letStatement
  | .keyword .INPUT => inputStatement
  | _ => unexpected "a statement"
  newline

/-- Counts one more open block and fails if there are too many. -/
def enterBlock : Generate σ Unit := do
  modify fun state ↦ { state with depth := state.depth + 1 }
  let state ← get
  let limit := (← read).maxDepth
  if limit < state.depth then failAt (.nestedTooDeeply limit) state.current.location

/-- Statements up to and including the token that ends the block, given a way to generate one. -/
def blockOf (statement : Generate σ Unit) (terminator : Kind) : Generate σ Unit := do
  enterBlock
  loopWhile (· ≠ terminator) do
    if ← check .endOfInput then unexpected terminator.description
    statement
  let _ ← expect terminator
  modify fun state ↦ { state with depth := state.depth - 1 }

/-- A block in which further blocks may be nested to the given depth less one. -/
def nestedBlock : Nat → Kind → Generate σ Unit
  | 0, _ => throw stalled
  | nesting + 1, terminator => blockOf (statementWith (nestedBlock nesting)) terminator

/-- Statements up to and including the token that ends the block. -/
def block (terminator : Kind) : Generate σ Unit := do
  nestedBlock (TokenSupply.bound (← get).supply) terminator

/-- A statement up to the end of its line. -/
def statement : Generate σ Unit :=
  statementWith block

end TeenyBasic.Generate
