import TeenyBasic.Similarity.Ranking
import TeenyBasic.Text.Quoted

/-!
# Command line arguments

Options may stand before and behind the source file. A long option may carry its value behind an
equals sign, short options may be joined behind one dash, and the value of `-o` may follow in the
same word or in the next one, whatever that word looks like. Two dashes end the options, and a
single dash is an ordinary argument. Of several values for `-o` the last one counts, and of
`--version` and `--help` the first one given.
-/

namespace TeenyBasic.CommandLine

/-- Requests for information, which take the place of a compilation. -/
inductive Notice where
  | version
  | help
  deriving DecidableEq, Repr

/-- The options. -/
inductive Switch where
  | output
  | tokens
  | verbose
  | notice (notice : Notice)
  deriving DecidableEq, Repr

/-- The long options. -/
def longSwitches : List (String × Switch) :=
  [("--output", .output), ("--tokens", .tokens), ("--verbose", .verbose),
   ("--version", .notice .version), ("--help", .notice .help)]

/-- The short options. -/
def shortSwitches : List (Char × Switch) :=
  [('o', .output), ('v', .verbose)]

/-- What the arguments ask for. -/
structure Arguments where
  positional : List String
  output : Option String
  tokens : Bool
  verbose : Bool
  notice : Option Notice
  deriving DecidableEq, Repr

/-- No arguments. -/
def Arguments.empty : Arguments := ⟨[], none, false, false, none⟩

/-- What is wrong with the arguments. -/
inductive UsageFault where
  | unknownOption (option : String) (similar : List String)
  | missingValue (option : String)
  | unwantedValue (option : String)
  | outputIsDirectory (path : String)
  | missingSource
  | sourceNotFound (path : String)
  | sourceIsDirectory (path : String)
  | extraArguments (arguments : List String)
  deriving DecidableEq, Repr

/-- The options offered in place of an unknown one. -/
def UsageFault.offer : List String → String
  | [] => ""
  | [only] => s!" Did you mean {only}?"
  | several =>
    let names := ", ".intercalate several
    s!" (Possible options: {names})"

/-- The message for arguments that are refused. -/
def UsageFault.message : UsageFault → String
  | .unknownOption option similar => s!"No such option: {option}{UsageFault.offer similar}"
  | .missingValue option => s!"Option {Text.quoted option} requires an argument."
  | .unwantedValue option => s!"Option {Text.quoted option} does not take a value."
  | .outputIsDirectory path =>
    s!"Invalid value for '-o' / '--output': File {Text.quoted path} is a directory."
  | .missingSource => "Missing argument 'SOURCE_FILE'."
  | .sourceNotFound path =>
    s!"Invalid value for 'SOURCE_FILE': File {Text.quoted path} does not exist."
  | .sourceIsDirectory path =>
    s!"Invalid value for 'SOURCE_FILE': File {Text.quoted path} is a directory."
  | .extraArguments [only] => s!"Got unexpected extra argument ({only})"
  | .extraArguments several =>
    let words := " ".intercalate several
    s!"Got unexpected extra arguments ({words})"

/-- Decides whether a message is preceded by a reminder of the usage. -/
def UsageFault.showsUsage : UsageFault → Bool
  | .missingValue _ | .unwantedValue _ => false
  | _ => true

/-- The arguments after an option without value. -/
def Arguments.raise (arguments : Arguments) : Switch → Arguments
  | .output => arguments
  | .tokens => { arguments with tokens := true }
  | .verbose => { arguments with verbose := true }
  | .notice notice => { arguments with notice := arguments.notice.or (some notice) }

/-- What the reading of a word leaves: the arguments so far, and the option whose value is to be the
next word, if there is one. -/
structure Progress where
  arguments : Arguments
  awaiting : Option String
  deriving DecidableEq, Repr

/-- Reads the letters behind a single dash. -/
def readLetters : List Char → Arguments → Except UsageFault Progress
  | [], arguments => .ok ⟨arguments, none⟩
  | letter :: rest, arguments =>
    match shortSwitches.lookup letter with
    | none => .error (.unknownOption (String.ofList ['-', letter]) [])
    | some .output =>
      if rest.isEmpty then .ok ⟨arguments, some (String.ofList ['-', letter])⟩
      else .ok ⟨{ arguments with output := some (String.ofList rest) }, none⟩
    | some switch => readLetters rest (arguments.raise switch)

/-- The long options most like an unknown one. -/
def similarSwitches (name : String) : List String :=
  (Similarity.closest Similarity.defaultLimit name (longSwitches.map Prod.fst)).mergeSort

/-- Reads a word that starts with two dashes, cut at its first equals sign. -/
def readLong (name : String) (value : Option String) (arguments : Arguments) :
    Except UsageFault Progress :=
  match longSwitches.lookup name, value with
  | none, _ => .error (.unknownOption name (similarSwitches name))
  | some .output, some value => .ok ⟨{ arguments with output := some value }, none⟩
  | some .output, none => .ok ⟨arguments, some name⟩
  | some _, some _ => .error (.unwantedValue name)
  | some switch, none => .ok ⟨arguments.raise switch, none⟩

/-- Cuts a word at its first equals sign. -/
def cutAtEquals (word : List Char) : String × Option String :=
  let name := String.ofList (word.takeWhile (· ≠ '='))
  match word.dropWhile (· ≠ '=') with
  | [] => (name, none)
  | _ :: value => (name, some (String.ofList value))

/-- Reads one word. -/
def readWord (word : String) (arguments : Arguments) : Except UsageFault Progress :=
  match word.toList with
  | '-' :: '-' :: rest =>
    let (name, value) := cutAtEquals ('-' :: '-' :: rest)
    readLong name value arguments
  | '-' :: letter :: rest => readLetters (letter :: rest) arguments
  | _ => .ok ⟨{ arguments with positional := arguments.positional ++ [word] }, none⟩

/-- Reads the words of a command line behind those already read. -/
def readWords : List String → Arguments → Except UsageFault Arguments
  | [], arguments => .ok arguments
  | word :: rest, arguments =>
    if word = "--" then .ok { arguments with positional := arguments.positional ++ rest }
    else
      match readWord word arguments with
      | .error fault => .error fault
      | .ok ⟨arguments, none⟩ => readWords rest arguments
      | .ok ⟨arguments, some option⟩ =>
        match rest with
        | [] => .error (.missingValue option)
        | value :: rest => readWords rest { arguments with output := some value }

/-- Reads a command line. -/
def Arguments.ofWords (words : List String) : Except UsageFault Arguments :=
  readWords words .empty

end TeenyBasic.CommandLine
