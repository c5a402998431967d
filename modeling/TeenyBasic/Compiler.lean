import TeenyBasic.Failure
import TeenyBasic.Text.LineEnding
import TeenyBasic.Generate.Program

/-!
# Compiling

One compilation starts from a source text and an empty scope and gives either a C program or the
first diagnostic. A compiler holds options and the draft of the last program it has compiled; only
a compilation that succeeds replaces the draft, and only a draft is ever written to a file.
-/

namespace TeenyBasic

/-- A compiled program: the name of its source, its C text, its variables and labels in the order
of their declarations, and the number of tokens read. -/
structure Compilation where
  file : String
  listing : Listing
  variableNames : List String
  labelNames : List String
  tokenCount : Nat
  deriving DecidableEq, Repr

/-- The C text of a compiled program. -/
def Compilation.text (compilation : Compilation) : String :=
  compilation.listing.output

/-- What a run of the generator leaves: the state reached, and the fault that ended it if there
was one. -/
def Generator.run {σ : Type} [TokenSupply σ] (setting : Setting) (start : Generator σ) :
    Generator σ × Option Diagnostic :=
  match (Generate.sourceText.run setting).run start with
  | .ok _ state => (state, none)
  | .error fault state => (state, some fault)

/-- The setting that options give to a source text. -/
def Options.setting (options : Options) (source : String) : Setting :=
  ⟨source, options.maxDepth, options.numberFormat⟩

/-- The outcome of a compilation and the notes taken on the way. -/
structure Attempt where
  notes : List String
  outcome : Except Diagnostic Compilation

/-- The compiled program of a generator that has come to the end of its source. -/
def Compilation.ofGenerator {σ : Type} (file : String) (state : Generator σ) : Compilation where
  file := file
  listing := state.listing
  variableNames := state.scope.declaredVariables.names
  labelNames := state.scope.declaredLabels.names
  tokenCount := state.pulled

/-- The note on a compiled program. -/
def Compilation.summary (c : Compilation) : String :=
  let names := s!"{c.variableNames.length} variables, {c.labelNames.length} labels"
  s!"Parsed {c.tokenCount} tokens: {names}"

/-- Compiles a source text under a name. -/
def Options.attempt (options : Options) (source file : String) : Attempt :=
  let opening := s!"Compiling {file} ({source.length} characters)"
  match Generator.begin (Cursor.start file source) .empty with
  | .error fault => ⟨[opening], .error fault⟩
  | .ok start =>
    let (state, fault?) := start.run (options.setting source)
    let notes := opening :: state.events.toList.map Event.text
    match fault? with
    | some fault => ⟨notes, .error fault⟩
    | none =>
      let compilation := Compilation.ofGenerator file state
      ⟨notes ++ [compilation.summary], .ok compilation⟩

/-- The program or the first diagnostic of a source text. -/
def Options.compile (options : Options) (source file : String) : Except Diagnostic Compilation :=
  (options.attempt source file).outcome

/-- A program text with the path it is to be written to. -/
structure Draft where
  listing : Listing
  destination : Option Path
  deriving DecidableEq, Repr

/-- A draft without text. -/
def Draft.empty (destination : Option String) : Draft :=
  ⟨.empty, destination.map Path.ofSpelling⟩

/-- Decides whether a path holds a null character, which no file system can look up. -/
def holdsNull (spelling : String) : Bool :=
  spelling.toList.contains '\x00'

section

variable {m : Type → Type} [Monad m] [FileAccess m]

/-- Writes a draft to its destination and gives back the text written. -/
def Draft.finalize (draft : Draft) : m (Except Failure String) := do
  match draft.destination with
  | none =>
    return .error (.diagnosed ⟨.unconfigured, none, none⟩)
  | some path =>
    if holdsNull path.text then return .error .nullInPath
    let text := draft.listing.output
    match ← FileAccess.write path.text (Text.Utf8.encode text.toList) with
    | .ok () => return .ok text
    | .error fault =>
      return .error (.diagnosed ⟨.unwritable path.text fault.reason, none, none⟩)

/-- The text of a source file, with all line endings written as line feeds. -/
def readSource (path : Path) : m (Except Failure String) := do
  match ← FileAccess.read path.text with
  | .error fault => return .error (.unreadable fault path.text)
  | .ok bytes =>
    match Text.Utf8.decode bytes with
    | .error fault => return .error (.undecodable fault)
    | .ok text => return .ok (String.ofList (Text.unifyLineEndings text))

/-- Fails if a path leads nowhere, under the spelling given for it. -/
def requireSource (spelling : String) (path : Path) : m (Except Failure Unit) := do
  if holdsNull path.text then return .error (.sourceNotFound spelling)
  match ← FileAccess.status path.text with
  | .error fault =>
    if fault.isAbsence then return .error (.sourceNotFound spelling)
    return .error (.unreadable fault path.text)
  | .ok _ => return .ok ()

end

/-- Options and the draft of the last program compiled under them. -/
structure Compiler where
  options : Options
  draft : Option Draft
  deriving DecidableEq, Repr

namespace Compiler

/-- A compiler that has compiled nothing. -/
def fresh (options : Options) : Compiler := ⟨options, none⟩

/-- Compiles a source text; the draft changes only if this succeeds. -/
def compileSource (compiler : Compiler) (source file : String) :
    Compiler × Except Failure Compilation :=
  match compiler.options.compile source file with
  | .error fault => (compiler, .error (.diagnosed fault))
  | .ok compilation =>
    ({ compiler with draft := some ⟨compilation.listing, compiler.options.destination⟩ },
      .ok compilation)

variable {m : Type → Type} [Monad m] [FileAccess m]

/-- Compiles a source file under the name given for it. -/
def compileFile (compiler : Compiler) (spelling : String) :
    m (Compiler × Except Failure Compilation) := do
  let path := Path.ofSpelling spelling
  match ← requireSource spelling path with
  | .error failure => return (compiler, .error failure)
  | .ok () =>
    match ← readSource path with
    | .error failure => return (compiler, .error failure)
    | .ok source => return compiler.compileSource source spelling

/-- Writes the draft and gives back the path written to. A path that is given becomes the
destination of the draft. -/
def writeOutput (compiler : Compiler) (spelling : Option String) :
    m (Compiler × Except Failure String) := do
  match compiler.draft with
  | none => return (compiler, .error .nothingCompiled)
  | some draft =>
    let destination := (spelling.map Path.ofSpelling).or draft.destination
    let draft := { draft with destination }
    let compiler := { compiler with draft := some draft }
    match ← draft.finalize with
    | .error failure => return (compiler, .error failure)
    | .ok _ => return (compiler, .ok ((destination.map Path.text).getD ""))

end Compiler

/-- The C text of a source text, under the standard options. -/
def compileText (source file : String) : Except Failure String :=
  match Options.standard.compile source file with
  | .error fault => .error (.diagnosed fault)
  | .ok compilation => .ok compilation.text

/-- The C text of a source file, which is also written to a path if one is given. -/
def compileTo {m : Type → Type} [Monad m] [FileAccess m] (spelling : String)
    (destination : Option String) : m (Except Failure String) := do
  let options := { Options.standard with destination := destination.map Path.ofSpelling }
  let (compiler, result) ← (Compiler.fresh options).compileFile spelling
  match result with
  | .error failure => return .error failure
  | .ok compilation =>
    if destination.isNone then return .ok compilation.text
    match ← compiler.writeOutput none with
    | (_, .error failure) => return .error failure
    | (_, .ok _) => return .ok compilation.text

end TeenyBasic
