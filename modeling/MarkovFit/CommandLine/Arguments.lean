import MarkovFit.CommandLine.Help

/-!
# Arguments

Reading the arguments of a call. Switches stand before or behind the verb. A word switch takes its
value after an equals sign or as the next argument. Letters may stand together behind one dash, and
the rest behind a letter that takes a value is the value. Arguments are read from left to right, and
the first one that asks for help or is wrong decides.
-/

namespace MarkovFit.CommandLine

/-- What overrides settings in a run. -/
structure Overrides where
  strategy : Option Strategy := none
  seed : Option Nat := none
  threads : Option Nat := none
  report : Option String := none
deriving DecidableEq, Repr

/-- What is to be done. -/
inductive Command where
  | run (overrides : Overrides)
  | stats
  | validate
  | example
deriving DecidableEq, Repr

/-- A command and the path of the settings. -/
structure Arguments where
  config : String
  command : Command
deriving DecidableEq, Repr

/-- What a call asks for. -/
inductive Request where
  | perform (arguments : Arguments)
  | help (page : HelpPage)
  | version
  /-- The call is not understood. -/
  | misuse

/-- Why the reading of switches stops early. -/
inductive Stop where
  | help | version | misuse
deriving DecidableEq, Repr

/-- The switches that were given, by word, with their values. -/
abbrev Given := List (String × String)

namespace Given

/-- Notes a switch with its value. A switch counts once only. -/
def note (given : Given) (s : Switch) (value : String) : Except Stop Given :=
  if s.word = Switch.help.word then .error .help
  else if s.word = Switch.version.word then .error .version
  else if (given.lookup s.word).isSome || !s.accepts value then .error .misuse
  else .ok ((s.word, value) :: given)

end Given

/-- Whether an argument is read as switches. A lone dash is a word. -/
def isSwitch (arg : String) : Bool :=
  match arg.toList with
  | '-' :: _ :: _ => true
  | _ => false

/-- Reads letters that stand together. The last one may wait for its value. -/
def readLetters (switches : List Switch) (given : Given) :
    List Char → Except Stop (Given × Option Switch)
  | [] => .ok (given, none)
  | c :: cs =>
    match switches.find? fun s => s.letter == some c with
    | none => .error .misuse
    | some s =>
      match s.value, cs with
      | none, cs => do
        let given ← given.note s ""
        readLetters switches given cs
      | some _, [] => .ok (given, some s)
      | some _, '=' :: value => (given.note s (String.ofList value)).map (·, none)
      | some _, value => (given.note s (String.ofList value)).map (·, none)

/-- Reads a word, perhaps with its value. -/
def readWord (switches : List Switch) (given : Given) (text : String) :
    Except Stop (Given × Option Switch) :=
  let (word, value?) := match Text.splitOnce? '=' text with
    | some (word, value) => (word, some value)
    | none => (text, none)
  match switches.find? fun s => s.word == word with
  | none => .error .misuse
  | some s =>
    match s.value, value? with
    | none, none => (given.note s "").map (·, none)
    | none, some _ => .error .misuse
    | some _, none => .ok (given, some s)
    | some _, some value => (given.note s value).map (·, none)

/-- Reads an argument that is a switch. -/
def readSwitch (switches : List Switch) (given : Given) (arg : String) :
    Except Stop (Given × Option Switch) :=
  match arg.toList with
  | '-' :: '-' :: word => readWord switches given (String.ofList word)
  | _ :: letters => readLetters switches given letters
  | [] => .error .misuse

/-- Reads switches up to the first argument that is none, or is two dashes. `waiting` is a switch
whose value is the next argument. -/
def readSwitches (switches : List Switch) :
    Given → Option Switch → List String → Except Stop (Given × List String)
  | given, none, [] => .ok (given, [])
  | _, some _, [] => .error .misuse
  | given, some s, arg :: args =>
    if isSwitch arg then .error .misuse
    else do
      let given ← given.note s arg
      readSwitches switches given none args
  | given, none, arg :: args =>
    if isSwitch arg && arg != "--" then do
      let (given, waiting) ← readSwitch switches given arg
      readSwitches switches given waiting args
    else .ok (given, arg :: args)

/-- The overrides among the switches of a run. -/
def overrides (given : Given) : Overrides :=
  { strategy := (given.lookup Switch.strategy.word).bind fun s => Strategy.words.lookup s
    seed := (given.lookup Switch.seed.word).bind Text.readNat64?
    threads := (given.lookup Switch.threads.word).bind Text.readNat64?
    report := given.lookup Switch.report.word }

/-- The command of a verb with its switches. -/
def command (given : Given) : Verb → Command
  | .run => .run (overrides given)
  | .stats => .stats
  | .validate => .validate
  | .example => .example

/-- Where settings are read from, unless a path is given. -/
def defaultConfig : String := "pacfit.toml"

/-- The path of the settings. A switch behind the verb counts more than one in front. -/
def configPath (front back : Given) : String :=
  ((back.lookup Switch.config.word).or (front.lookup Switch.config.word)).getD defaultConfig

/-- What a stop asks for, on the page at hand. -/
def Stop.request (page : HelpPage) : Stop → Request
  | .help => .help page
  | .version => .version
  | .misuse => .misuse

/-- Reads what follows the word `help`. -/
def readHelp : List String → Request
  | [] => .help .program
  | [word] =>
    match Verb.ofWord? word with
    | some v => .help (.ofVerb v)
    | none => if word = "help" then .help .ofHelp else .misuse
  | _ :: _ :: _ => .misuse

/-- Reads what follows a verb: switches and nothing else. -/
def readVerb (front : Given) (v : Verb) (args : List String) : Request :=
  match readSwitches v.switches [] none args with
  | .error stop => stop.request (.ofVerb v)
  | .ok (given, []) => .perform ⟨configPath front given, command given v⟩
  | .ok (given, ["--"]) => .perform ⟨configPath front given, command given v⟩
  | .ok _ => .misuse

/-- Reads the arguments of a call. -/
def readArguments (args : List String) : Request :=
  match readSwitches Switch.general [] none args with
  | .error stop => stop.request .program
  | .ok (_, []) => .misuse
  | .ok (given, word :: rest) =>
    if word = "help" then readHelp rest
    else
      match Verb.ofWord? word with
      | some v => readVerb given v rest
      | none => .misuse

end MarkovFit.CommandLine
