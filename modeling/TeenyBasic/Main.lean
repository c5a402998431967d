import TeenyBasic.CommandLine.Run

/-!
# The executable

The command on the files of the machine. Requests about files are answered by trying them: a
directory is what cannot be read because it is one.
-/

namespace TeenyBasic

/-- The fault behind an error of the operating system. -/
def FileFault.ofError : IO.Error → FileFault
  | .alreadyExists _ code words | .otherError code words | .resourceBusy code words
  | .resourceVanished code words | .unsupportedOperation code words | .hardwareFault code words
  | .unsatisfiedConstraints code words | .illegalOperation code words
  | .protocolError code words | .timeExpired code words | .interrupted _ code words
  | .noFileOrDirectory _ code words | .invalidArgument _ code words
  | .permissionDenied _ code words | .resourceExhausted _ code words
  | .inappropriateType _ code words | .noSuchThing _ code words => ⟨code.toNat, words⟩
  | error => ⟨0, error.toString⟩

instance : FileAccess IO where
  status path := do
    try
      let _ ← IO.FS.readBinFile path
      return .ok .file
    catch error =>
      let fault := FileFault.ofError error
      if fault.code = FileFault.isDirectory.code then return .ok .directory
      return .error fault
  read path := do
    try
      let bytes ← IO.FS.readBinFile path
      return .ok bytes.toList
    catch error => return .error (FileFault.ofError error)
  write path bytes := do
    try
      IO.FS.writeBinFile path ⟨bytes.toArray⟩
      return .ok ()
    catch error => return .error (FileFault.ofError error)

end TeenyBasic

/-- Runs the command on the arguments of the process. -/
def main (args : List String) : IO UInt32 := do
  match ← TeenyBasic.CommandLine.run args with
  | .ok result =>
    IO.print result.stdout
    IO.eprint result.stderr
    return result.exit.toNat.toUInt32
  | .error failure =>
    IO.eprintln failure.message
    return 1
