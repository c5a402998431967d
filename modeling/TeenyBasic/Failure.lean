import TeenyBasic.Diagnostic
import TeenyBasic.FileStore
import TeenyBasic.Options
import TeenyBasic.Text.Utf8

/-!
# Failures

Whatever keeps a request from being carried out: a diagnostic, options that are refused, a source
file that cannot be read, or a request that comes too early.
-/

namespace TeenyBasic

/-- Why a request is not carried out. -/
inductive Failure where
  /-- The program, or writing its result, has a fault. -/
  | diagnosed (diagnostic : Diagnostic)
  /-- The options are refused. -/
  | refused (fault : OptionFault)
  /-- The result is to be written before any program has been compiled. -/
  | nothingCompiled
  /-- The source file does not exist. -/
  | sourceNotFound (spelling : String)
  /-- A path leads to no readable file. -/
  | unreadable (fault : FileFault) (path : String)
  /-- A source file is not well-formed text. -/
  | undecodable (fault : Text.Utf8.Fault)
  /-- A path holds a null character. -/
  | nullInPath
  deriving DecidableEq, Repr

/-- The message for a request about a file that is refused, with the paths it concerns. -/
def FileFault.refusal (code : Int) (reason : String) (paths : List String) : String :=
  let about := " -> ".intercalate (paths.map Text.quoted)
  if paths.isEmpty then s!"[Errno {code}] {reason}" else s!"[Errno {code}] {reason}: {about}"

/-- The message of a failure. -/
def Failure.message : Failure → String
  | .diagnosed diagnostic => diagnostic.report
  | .refused fault => fault.message
  | .nothingCompiled => "write_output() called before a successful compilation"
  | .sourceNotFound spelling => s!"Source file not found: {spelling}"
  | .unreadable fault path => FileFault.refusal fault.code fault.reason [path]
  | .undecodable fault => fault.message
  | .nullInPath => "embedded null byte"

end TeenyBasic
