import MarkovFit.CommandLine.Perform
import MarkovFit.Text.Timestamp

/-!
# The command line

The surroundings of a command as a process sees them: its streams, its files and its clocks. Other
programs are not started from here.
-/

namespace MarkovFit

/-- The text of an error of the system with its number. -/
def systemText (code : UInt32) (details : String) : String := s!"{details} (os error {code})"

/-- The reason of an error. -/
def ioReason : IO.Error → String
  | .alreadyExists _ code details | .otherError code details | .resourceBusy code details
  | .resourceVanished code details | .unsupportedOperation code details
  | .hardwareFault code details | .unsatisfiedConstraints code details
  | .illegalOperation code details | .protocolError code details | .timeExpired code details
  | .interrupted _ code details | .noFileOrDirectory _ code details
  | .invalidArgument _ code details | .permissionDenied _ code details
  | .resourceExhausted _ code details | .inappropriateType _ code details
  | .noSuchThing _ code details => systemText code details
  | .unexpectedEof => "unexpected end of file"
  | .userError text => text

/-- An action with the reason if it fails. -/
def guarded {α : Type} (action : IO α) : IO (Except String α) :=
  tryCatch (Except.ok <$> action) fun e => return .error (ioReason e)

/-- Reads a text file. -/
def readTextFile (path : String) : IO (Except String String) := do
  match ← guarded (IO.FS.readBinFile path) with
  | .error reason => return .error reason
  | .ok bytes =>
    match Text.decode? bytes.toList with
    | some text => return .ok text
    | none => return .error "stream did not contain valid UTF-8"

/-- Whether a file can be opened for reading. -/
def isReadable (path : String) : IO Bool := do
  return (← guarded (IO.FS.Handle.mk path .read)).isOk

/-- A host that starts nothing. -/
def fileHost (files : List String) : IO (Host IO) := do
  let readable ← files.filterM isReadable
  return {
    readable := readable.contains
    scratch := "."
    run := fun _ => return .refused "programs are not started from here"
    serve := fun _ => .error "programs are not started from here" }

/-- The present time, as a new file shows it. -/
def presentTime : IO String := do
  let (_, path) ← IO.FS.createTempFile
  let modified := (← path.metadata).modified
  IO.FS.removeFile path
  return Timestamp.text modified.sec modified.nsec.toNat

/-- The surroundings of the process. -/
def processSurroundings : CommandLine.Surroundings IO :=
  { print := fun line => IO.println line
    complain := fun line => IO.eprintln line
    readText := readTextFile
    makeDirectories := fun path => guarded (IO.FS.createDirAll path)
    writeText := fun path text => guarded (IO.FS.writeFile path text)
    rename := fun source target => guarded (IO.FS.rename source target)
    host := fileHost
    fresh := return (← IO.getRandomBytes 8).toUInt64LE!
    clock := IO.monoMsNow
    now := presentTime }

end MarkovFit

/-- Performs what the arguments ask for. -/
def main (args : List String) : IO UInt32 := do
  return UInt32.ofNat (← MarkovFit.CommandLine.performCall MarkovFit.processSurroundings args)
