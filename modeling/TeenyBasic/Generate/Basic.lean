import TeenyBasic.Cursor
import TeenyBasic.Listing
import TeenyBasic.Reserved
import TeenyBasic.Scope
import TeenyBasic.Text.Lines

/-!
# Generators

A generator recognises a program and writes its C text at the same time. It looks at one token
ahead, which it pulls from a supply of tokens when it needs it, and it may fail at any point with a
diagnostic; the state it leaves then still shows how far it came.

Supplies are abstract, and cursors are the ones that a source text is read with. A supply states a
bound on how often a loop of the generator can go round before the supply gives out, each round
pulling at least one token. Loops count down from that bound, and a supply that outlasts it would
end them with the diagnostic `stalled`. A supply that keeps to its bound, as a cursor does, never
brings that about.
-/

namespace TeenyBasic

/-- A source of tokens, and a bound on the number of tokens it can still give before it gives the
end of the input for ever. -/
class TokenSupply (σ : Type) where
  pull : EStateM Diagnostic σ Token
  bound : σ → Nat

/-- Each pull from a cursor uses up a character until the end of the input comes; two more rounds
are granted for pulling that token and for noticing it. -/
instance : TokenSupply Cursor where
  pull := Cursor.next
  bound c := c.rest.length + 2

/-- What does not change during a run: the source text, for quoting its lines, the number of blocks
that may be open at once, and the format in which numbers are printed. -/
structure Setting where
  source : String
  maxDepth : Int
  numberFormat : String
  deriving DecidableEq, Repr

/-- The number of blocks that may be open at once unless set otherwise. -/
def Setting.defaultMaxDepth : Int := 200

/-- The format in which numbers are printed unless set otherwise. -/
def Setting.defaultNumberFormat : String := "%.2f"

/-- The line of the source text with the given number. -/
def Setting.line? (setting : Setting) (number : Int) : Option String :=
  Text.line? (Cursor.closed setting.source) number

/-- What a generator notes down while it runs. -/
inductive Event where
  | declaredLabel (name : String) (location : Location)
  | declaredVariable (name : String) (location : Location)
  deriving DecidableEq, Repr

/-- An event in words. -/
def Event.text : Event → String
  | .declaredLabel name location => s!"Declared label '{name}' at {location.text}"
  | .declaredVariable name location => s!"Declared variable '{name}' at {location.text}"

/-- The state of a generator: the supply, the token looked at, what has been written, the names in
scope, the number of open blocks, the number of tokens pulled and the events so far. -/
structure Generator (σ : Type) where
  supply : σ
  current : Token
  listing : Listing
  scope : Scope
  depth : Nat
  pulled : Nat
  events : Array Event

/-- A step of a generator. -/
abbrev Generate (σ : Type) := ReaderT Setting (EStateM Diagnostic (Generator σ))

/-- A generator that looks at the first token of a supply and has written nothing. -/
def Generator.begin {σ : Type} [TokenSupply σ] (supply : σ) (scope : Scope) :
    Except Diagnostic (Generator σ) :=
  match TokenSupply.pull.run supply with
  | .ok token rest => .ok ⟨rest, token, .empty, scope, 0, 1, #[]⟩
  | .error fault _ => .error fault

/-- The diagnostic of a supply that gives more tokens than it announced. -/
def stalled : Diagnostic :=
  ⟨.stated .other "the supply of tokens exceeds its bound" none, none, none⟩

namespace Generate

variable {σ : Type}

/-- Fails at a place, quoting its line. -/
def failAt {α : Type} (cause : Cause) (location : Location) : Generate σ α := do
  throw ⟨cause, some location, (← read).line? location.line⟩

/-- Fails because the current token is not what was expected. -/
def unexpected {α : Type} (expected : String) : Generate σ α := do
  let token := (← get).current
  failAt (.unexpectedToken expected token.description) token.location

/-- The kind of the current token. -/
def kind : Generate σ Kind :=
  return (← get).current.kind

/-- Decides whether the current token is of a kind. -/
def check (expected : Kind) : Generate σ Bool :=
  return (← get).current.kind = expected

/-- Moves on to the next token and gives back the one before it. A failing pull keeps the current
token. -/
def advance [TokenSupply σ] : Generate σ Token := do
  let state ← get
  match TokenSupply.pull.run state.supply with
  | .ok token supply =>
    set { state with supply, current := token, pulled := state.pulled + 1 }
    return state.current
  | .error fault supply =>
    set { state with supply }
    throw fault

/-- Moves past a token that must be of a kind. -/
def expect [TokenSupply σ] (expected : Kind) : Generate σ Token := do
  if ← check expected then advance else unexpected expected.description

/-- Adds text to the body. -/
def write (text : String) : Generate σ Unit :=
  modify fun state ↦ { state with listing := state.listing.write text }

/-- Adds text to the body and ends its line. -/
def writeLine (text : String) : Generate σ Unit :=
  modify fun state ↦ { state with listing := state.listing.writeLine text }

/-- Adds a line to the header. -/
def declare (line : String) : Generate σ Unit :=
  modify fun state ↦ { state with listing := state.listing.declare line }

/-- Repeats a step as long as the kind of the current token passes a test, at most the given number
of times less one. -/
def repeatWhile (test : Kind → Bool) (step : Generate σ Unit) : Nat → Generate σ Unit
  | 0 => throw stalled
  | rounds + 1 => do
    if test (← kind) then
      step
      repeatWhile test step rounds

/-- Repeats a step as long as the kind of the current token passes a test. -/
def loopWhile [TokenSupply σ] (test : Kind → Bool) (step : Generate σ Unit) : Generate σ Unit := do
  repeatWhile test step (TokenSupply.bound (← get).supply)

/-- Moves past any number of line ends. -/
def skipNewlines [TokenSupply σ] : Generate σ Unit :=
  loopWhile (· = .newline) do let _ ← advance

/-- Moves past one line end or more. -/
def newline [TokenSupply σ] : Generate σ Unit := do
  let _ ← expect .newline
  skipNewlines

end Generate

end TeenyBasic
