import TeenyBasic.CommandLine.Arguments
import TeenyBasic.CommandLine.Help
import TeenyBasic.Compiler
import TeenyBasic.Text.Terminal

/-!
# The command

The command reads its arguments, compiles one source file and writes the C program next to it or
where it is told. All it does shows in the text on its two output streams, in its exit code and in
the file it writes.

Wrong arguments are found before anything else. A request for information comes next, then the path
given for the output, then the source file, then arguments that are left over. With `-v` the notes
of the compilation go to the error stream as they are; everything else is written as plain terminal
text.
-/

namespace TeenyBasic.CommandLine

/-- How the command ends. -/
inductive ExitCode where
  | success
  | compileError
  | invalidArguments
  | internalError
  | outputError
  deriving DecidableEq, Repr

/-- The number of an exit code. -/
def ExitCode.toNat : ExitCode → Nat
  | .success => 0
  | .compileError => 1
  | .invalidArguments => 2
  | .internalError => 3
  | .outputError => 4

/-- What the command leaves: its exit code and the text on its two streams. -/
structure Result where
  exit : ExitCode
  stdout : String
  stderr : String
  deriving DecidableEq, Repr

/-- A line of plain terminal text. -/
def echo (line : String) : String :=
  Text.Terminal.plain line ++ "\n"

/-- A note on the error stream. -/
def note (text : String) : String :=
  s!"DEBUG: {text}\n"

/-- A failure as the command tells it apart. -/
inductive Trouble where
  /-- The program, or writing its result, has a fault. -/
  | diagnosed (diagnostic : Diagnostic)
  /-- The source file cannot be read. -/
  | unreadable (message : String)
  /-- Anything else. -/
  | internal (message : String)
  deriving DecidableEq, Repr

/-- The trouble that a failure makes. -/
def Trouble.ofFailure : Failure → Trouble
  | .diagnosed diagnostic => .diagnosed diagnostic
  | .unreadable fault path => .unreadable (Failure.unreadable fault path).message
  | .sourceNotFound spelling => .unreadable (Failure.sourceNotFound spelling).message
  | .undecodable fault => .unreadable fault.message
  | failure => .internal failure.message

/-- The exit code for a trouble. -/
def Trouble.exit : Trouble → ExitCode
  | .diagnosed diagnostic =>
    if diagnostic.cause.family = .output then .outputError else .compileError
  | .unreadable _ => .invalidArguments
  | .internal _ => .internalError

/-- The message for a trouble. -/
def Trouble.message : Trouble → String
  | .diagnosed diagnostic =>
    if diagnostic.cause.family = .output then s!"Output error: {diagnostic.cause.text}"
    else diagnostic.report
  | .unreadable message => s!"Error while trying to open source file: {message}"
  | .internal message => s!"Internal error: {message}"

/-- What follows the message in a verbose run: the trace of an internal error, of which there is
none to show. -/
def Trouble.trace (verbose : Bool) : Trouble → String
  | .internal _ => if verbose then "NoneType: None\n" else ""
  | _ => ""

/-- Ends the command with a trouble. -/
def Trouble.result (trouble : Trouble) (verbose : Bool) : Result :=
  ⟨trouble.exit, "", echo trouble.message ++ trouble.trace verbose⟩

/-- Ends the command because of its arguments. -/
def UsageFault.result (fault : UsageFault) : Result :=
  let reminder := if fault.showsUsage then usageReminder else ""
  ⟨.invalidArguments, "", reminder ++ echo s!"Error: {fault.message}"⟩

/-- Ends the command with information. -/
def Notice.result : Notice → Result
  | .version => ⟨.success, echo versionText, ""⟩
  | .help => ⟨.success, echo helpText, ""⟩

/-- Puts text in front of what a result has on its streams. -/
def Result.after (result : Result) (stdout stderr : String) : Result :=
  { result with stdout := stdout ++ result.stdout, stderr := stderr ++ result.stderr }

/-- Why arguments lead to no work: they are wrong, or a path among them cannot be looked up. -/
inductive Refusal where
  | usage (fault : UsageFault)
  | nullInPath
  deriving DecidableEq, Repr

/-- The work to be done when the arguments are in order. -/
structure Job where
  source : Path
  destination : Path
  tokens : Bool
  verbose : Bool
  deriving DecidableEq, Repr

/-- The text on the error stream for notes, which only a verbose run shows. -/
def Job.log (job : Job) (notes : List String) : String :=
  if job.verbose then String.join (notes.map note) else ""

/-- The text on the output stream for lines that only a verbose run shows. -/
def Job.tell (job : Job) (lines : List String) : String :=
  if job.verbose then String.join (lines.map echo) else ""

/-- Names in a row, or a word for none. -/
def nameList : List String → String
  | [] => "(none)"
  | names => ", ".intercalate names

/-- The lines about a compiled program. -/
def Job.account (job : Job) (compilation : Compilation) : List String :=
  [s!"Tokenized: {compilation.tokenCount} tokens",
   s!"Variables: {nameList compilation.variableNames}",
   s!"Labels: {nameList compilation.labelNames}",
   s!"Wrote {compilation.text.length} bytes to {job.destination.text}"]

/-- Lists the tokens of a source text up to the end or up to a fault. -/
def Job.listTokens (job : Job) (source : String) : Result :=
  let stream := (Cursor.start job.source.text source).stream
  let listing := String.join (stream.tokens.map fun token ↦ echo token.listing)
  match stream.fault with
  | none => ⟨.success, listing, ""⟩
  | some fault => (Trouble.result (.diagnosed fault) job.verbose).after listing ""

section

variable {m : Type → Type} [Monad m] [FileAccess m]

/-- Compiles a source text and writes the program. -/
def Job.compile (job : Job) (source : String) : m Result := do
  let options := { Options.standard with destination := some job.destination }
  let attempt := options.attempt source job.source.text
  let greeting := job.tell [s!"Compiling {job.source.text}..."]
  let log := job.log attempt.notes
  match attempt.outcome with
  | .error fault => return (Trouble.result (.diagnosed fault) job.verbose).after greeting log
  | .ok compilation =>
    let draft : Draft := ⟨compilation.listing, some job.destination⟩
    match ← draft.finalize with
    | .error failure =>
      return ((Trouble.ofFailure failure).result job.verbose).after greeting log
    | .ok text =>
      let written := job.log [s!"Wrote {text.length} bytes to {job.destination.text}"]
      let done := echo s!"Compiled {job.source.text} -> {job.destination.text}"
      return ⟨.success, greeting ++ job.tell (job.account compilation) ++ done, log ++ written⟩

/-- Does the work that the arguments ask for. -/
def Job.run (job : Job) : m Result := do
  let opening := job.log [s!"Translating {job.source.text} -> {job.destination.text}"]
  match ← readSource job.source with
  | .error failure => return ((Trouble.ofFailure failure).result job.verbose).after "" opening
  | .ok source =>
    if job.tokens then return (job.listTokens source).after "" opening
    else return (← job.compile source).after "" opening

/-- Refuses a path for the output that cannot be looked up or leads to a directory. -/
def checkOutput : Option String → m (Except Refusal Unit)
  | none => return .ok ()
  | some path => do
    if holdsNull path then return .error .nullInPath
    match ← FileAccess.status path with
    | .ok .directory => return .error (.usage (.outputIsDirectory path))
    | _ => return .ok ()

/-- Refuses a path for the source that cannot be looked up or leads to no file. -/
def checkSource (path : String) : m (Except Refusal Unit) := do
  if holdsNull path then return .error .nullInPath
  match ← FileAccess.status path with
  | .ok .file => return .ok ()
  | .ok .directory => return .error (.usage (.sourceIsDirectory path))
  | .error _ => return .error (.usage (.sourceNotFound path))

/-- The suffix of generated programs. -/
def programSuffix : String := ".c"

/-- The work that arguments ask for, once the files they name have been looked at. -/
def Arguments.job (arguments : Arguments) : m (Except Refusal Job) := do
  match ← checkOutput arguments.output with
  | .error refusal => return .error refusal
  | .ok () =>
    match arguments.positional with
    | [] => return .error (.usage .missingSource)
    | spelling :: extra =>
      match ← checkSource spelling with
      | .error refusal => return .error refusal
      | .ok () =>
        if extra.isEmpty then
          let source := Path.ofSpelling spelling
          let destination :=
            (arguments.output.map Path.ofSpelling).getD (source.withSuffix programSuffix)
          return .ok ⟨source, destination, arguments.tokens, arguments.verbose⟩
        else return .error (.usage (.extraArguments extra))

/-- Runs the command with the words of its command line. Only a word that no operating system can
pass on, one with a null character, keeps it from coming to a result. -/
def run (words : List String) : m (Except Failure Result) := do
  match Arguments.ofWords words with
  | .error fault => return .ok fault.result
  | .ok arguments =>
    match arguments.notice with
    | some notice => return .ok notice.result
    | none =>
      match ← arguments.job with
      | .error (.usage fault) => return .ok fault.result
      | .error .nullInPath => return .error .nullInPath
      | .ok job => return .ok (← job.run)

end

end TeenyBasic.CommandLine
