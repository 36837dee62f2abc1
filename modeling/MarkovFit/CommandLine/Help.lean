import MarkovFit.CommandLine.Switch

/-!
# Help

Help pages: what a command is for, how it is called, and two columns of names and descriptions.
-/

namespace MarkovFit.CommandLine

/-- The name of the program. -/
def programName : String := "pacfit"

def versionText : String := programName ++ " 0.1.0"

/-- Blanks. -/
def blanks (n : Nat) : String := String.ofList (List.replicate n ' ')

/-- A text filled up with blanks. -/
def padded (width : Nat) (s : String) : String := s ++ blanks (width - s.length)

/-- Two columns, the second one behind the longest entry of the first. -/
def columns (entries : List (String × String)) : List String :=
  let width := (entries.map fun e => e.1.length).foldl max 0
  entries.map fun (name, about) => "  " ++ padded width name ++ "  " ++ about

/-- A page of help. -/
structure HelpPage where
  about : String
  /-- What follows the name of the program in a call. -/
  usage : String
  /-- Titles with entries. -/
  sections : List (String × List (String × String))

namespace HelpPage

def sectionLines (s : String × List (String × String)) : List String :=
  "" :: (s.1 ++ ":") :: columns s.2

def lines (p : HelpPage) : List String :=
  [p.about, "", "Usage: " ++ programName ++ " " ++ p.usage] ++ p.sections.flatMap sectionLines

end HelpPage

/-- The names of a switch; switches without a letter leave room for one. -/
def Switch.names (s : Switch) : String :=
  let front := match s.letter with
    | some c => String.ofList ['-', c, ',', ' ']
    | none => blanks 4
  let back := match s.value with
    | some value => " <" ++ value ++ ">"
    | none => ""
  front ++ "--" ++ s.word ++ back

/-- The entries of switches. -/
def switchEntries (switches : List Switch) : List (String × String) :=
  switches.map fun s => (s.names, s.about)

/-- What is said about the command for help. -/
def helpAbout : String := "Print this message or the help of the given subcommand(s)"

namespace HelpPage

/-- The page of the whole program. -/
def program : HelpPage :=
  { about := "PAC-guaranteed function fitting and AdaptLIPO search over parametric Markov models"
    usage := "[OPTIONS] <COMMAND>"
    sections := [
      ("Commands", Verb.all.map (fun v => (v.word, v.about)) ++ [("help", helpAbout)]),
      ("Options", switchEntries Switch.general)] }

/-- The page of a command. -/
def ofVerb (v : Verb) : HelpPage :=
  { about := v.about
    usage := v.word ++ " [OPTIONS]"
    sections := [("Options", switchEntries v.switches)] }

/-- The page of the command for help. -/
def ofHelp : HelpPage :=
  { about := helpAbout
    usage := "help [COMMAND]..."
    sections := [("Arguments", [("[COMMAND]...", "Print help for the subcommand(s)")])] }

end HelpPage
end MarkovFit.CommandLine
