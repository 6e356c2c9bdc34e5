import Marginalia.CommandLine.Reading
import Marginalia.Workflow

/-! # The command line

The commands of the program with their parameters, and the options that may be given before a
command as well as behind it, where they weigh more.
-/

namespace Marginalia.CommandLine

/-- What the command line puts in the place of settings. -/
structure Overrides where
  source : Option String := none
  target : Option String := none
  provider : Option String := none
  libreUrl : Option String := none
  deriving DecidableEq, Repr

/-- What the program is asked to do. -/
inductive Command
  | translate (task : Workflow.FileTask) (json : Bool)
  /-- Translate the comments of the files below a directory. -/
  | batch (directory : String) (dryRun json : Bool)
  /-- List the comments of a file. -/
  | extract (input : String) (language : Option String) (json : Bool)
  | text (text : String)
  | languages
  /-- Write the settings in force to a file. -/
  | initConfig (path : String) (force : Bool)

/-- A command with everything that was given besides. -/
structure Arguments where
  verbose : Bool
  config : Option String
  overrides : Overrides
  command : Command

/-- Where settings are looked for and written when no path is given. -/
def defaultConfigPath : String := "comment-translator.toml"

/-- The values that were given, by the names of their parameters. -/
abbrev Given := List (String × String)

def Given.flag (given : Given) (name : String) : Bool := (given.lookup name).isSome

/-- A command by its name: its parameters, and what it is with their values, unless one is
missing. -/
structure Form where
  name : String
  options : List Parameter := []
  positional : Option Parameter := none
  command? : Given → Option Command

/-! ## Parameters -/

/-- The option that asks for help, at every level. -/
def helpOption : Parameter := ⟨"help", some 'h', .help⟩

/-- The options that may be given at every level. -/
def sharedOptions : List Parameter :=
  [⟨"verbose", some 'v', .flag⟩, ⟨"config", some 'c', .path⟩, ⟨"source", some 's', .text⟩,
    ⟨"target", some 't', .text⟩, ⟨"provider", some 'p', .text⟩, ⟨"libre-url", none, .text⟩]

def languageOption : Parameter := ⟨"language", some 'l', .text⟩

def jsonOption : Parameter := ⟨"json", none, .flag⟩

/-- The option that keeps files as they are. -/
def dryRunOption : Parameter := ⟨"dry-run", none, .flag⟩

def forms : List Form :=
  [{ name := "translate"
     options := [⟨"input", some 'i', .path⟩, ⟨"output", some 'o', .path⟩, languageOption,
      dryRunOption, jsonOption]
     command? := fun given => (given.lookup "input").map fun input =>
      .translate
        { input, output := given.lookup "output", language := given.lookup "language",
          dryRun := given.flag "dry-run" }
        (given.flag "json") },
    { name := "batch"
      options := [⟨"input-dir", some 'i', .path⟩, dryRunOption, jsonOption]
      command? := fun given => (given.lookup "input-dir").map fun directory =>
        .batch directory (given.flag "dry-run") (given.flag "json") },
    { name := "extract"
      options := [⟨"input", some 'i', .path⟩, languageOption, jsonOption]
      command? := fun given => (given.lookup "input").map fun input =>
        .extract input (given.lookup "language") (given.flag "json") },
    { name := "text"
      positional := some ⟨"text", none, .text⟩
      command? := fun given => (given.lookup "text").map .text },
    { name := "languages"
      command? := fun _ => some .languages },
    { name := "init-config"
      options := [⟨"force", none, .flag⟩]
      positional := some ⟨"path", none, .path⟩
      command? := fun given =>
        some (.initConfig ((given.lookup "path").getD defaultConfigPath) (given.flag "force")) }]

/-- The names that may stand where a command stands. -/
def commandNames : List String := forms.map Form.name ++ ["help"]

def programLevel : Level where
  options := sharedOptions ++ [helpOption, ⟨"version", some 'V', .version⟩]
  commands := commandNames

def Form.level (form : Form) : Level where
  options := form.options ++ sharedOptions ++ [helpOption]
  positional := form.positional

/-! ## Reading -/

/-- Why nothing is done when help on a command is wanted; commands have no commands below
them. -/
def stopForHelp : List String → Stop
  | [] => .helpWanted
  | [name] => if commandNames.contains name then .helpWanted else .unknownCommand
  | _ => .unknownCommand

/-- What was given at all levels, where the first of two values counts. -/
def Arguments.ofGiven (given : Given) (command : Command) : Arguments where
  verbose := given.flag "verbose"
  config := given.lookup "config"
  overrides :=
    { source := given.lookup "source"
      target := given.lookup "target"
      provider := given.lookup "provider"
      libreUrl := given.lookup "libre-url" }
  command

def Form.read (form : Form) (arguments : List String) : Except Stop (Given × Command) := do
  let (reading, _) ← Reading.readAll form.level { } arguments
  let reading ← reading.settle
  match form.command? reading.given with
  | some command => return (reading.given, command)
  | none => throw .missingArgument

/-- Reads the arguments of the program. What is wrong at the end of the options before a command
shows only when the command is read without fault. -/
def Arguments.read (arguments : List String) : Except Stop Arguments := do
  match ← Reading.readAll programLevel { } arguments with
  | (reading, []) =>
    throw (if (← reading.settle).given.isEmpty then .nothingGiven else .missingCommand)
  | (reading, name :: rest) =>
    match forms.find? fun form => form.name == name with
    | none => throw (stopForHelp rest)
    | some form =>
      let (given, command) ← form.read rest
      return .ofGiven (given ++ (← reading.settle).given) command

end Marginalia.CommandLine
