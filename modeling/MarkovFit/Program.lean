import MarkovFit.Text.Utf8

/-!
# Programs

Model checkers and backends are programs of their own. A host starts them: either for one run from
the input to the end of the output, or as a server that reacts to one line after another.
-/

namespace MarkovFit

/-- A program to start, with all it is given. -/
structure Invocation where
  program : String
  arguments : List String
  /-- The whole input of a program that runs once. -/
  input : String := ""
  /-- Files that are written before the start, by path. -/
  files : List (String × String) := []
  /-- The time limit in milliseconds. -/
  timeout : Option Nat := none
deriving DecidableEq, Repr

/-- What a program leaves behind. -/
structure ProgramOutput where
  stdout : List UInt8
  stderr : List UInt8 := []
  status : Int := 0
deriving DecidableEq, Repr

/-- How a run ends: the program does not start, or is not done in time, or ends. -/
inductive Outcome where
  | refused (reason : String)
  | late
  | finished (output : ProgramOutput)
deriving DecidableEq, Repr

/-- What a server does on a line of input. -/
inductive Reaction where
  | reply (output : List UInt8)
  | quit (output : List UInt8)
deriving DecidableEq, Repr

/-- When the output of a server comes to the client that talks to it. A number says how many of the
bytes that are on their way come. Without a number all of them do, and the end of a server that has
finished comes after them. Moments are counted by the texts that the client has sent. -/
structure Pace where
  /-- What comes before the client sends its next text. -/
  before : Nat → Option Nat := fun _ => none
  /-- What comes in the time for which the client waits. -/
  within : Nat → Option Nat := fun _ => none

/-- A program that reads its input line by line. -/
structure Server where
  /-- The reaction to the line with this number, counted from zero. -/
  react : Nat → String → Reaction
  /-- What is written when the input ends; nothing if the server goes on for ever. -/
  atEnd : Option (List UInt8)
  pace : Pace := {}

/-- What starts programs and knows the files. -/
structure Host (m : Type → Type) where
  /-- Whether a file can be read. -/
  readable : String → Bool
  /-- A directory for files that only a program reads. -/
  scratch : String
  run : Invocation → m Outcome
  /-- The server that an invocation starts, or the reason why it does not start. -/
  serve : Invocation → Except String Server

namespace ProgramOutput

/-- The output as text. -/
def text (o : ProgramOutput) : String := Text.decodeLossy o.stdout

/-- The diagnostics as text. -/
def diagnostics (o : ProgramOutput) : String := Text.decodeLossy o.stderr

end ProgramOutput
end MarkovFit
