/-! # Reading arguments

The arguments of a program are read one by one against the parameters that are known at a
level: the program itself, or one of its commands. A value that stands as an argument of its
own is held back and counts once the next argument is understood, or at the end; what is wrong
with it shows only then, and not at all when the next argument is wrong itself.
-/

namespace Marginalia.CommandLine

/-- Why no command comes out of the arguments. -/
inductive Stop
  | helpWanted
  | versionWanted
  | nothingGiven
  | missingCommand
  | unknownCommand
  | unknownArgument
  | missingArgument
  | givenTwice
  /-- A value is missing, or empty where it may not be. -/
  | badValue
  /-- A value is attached to an option that takes none. -/
  | unexpectedValue
  deriving DecidableEq, Repr

/-- What a parameter is for. -/
inductive Use
  /-- It is given or not. -/
  | flag
  /-- It has a value. -/
  | text
  /-- It has a value that is not empty. -/
  | path
  | help
  | version
  deriving DecidableEq, Repr

def Use.takesValue : Use → Bool
  | text | path => true
  | flag | help | version => false

/-- A parameter. Behind two hyphens stands its name, behind one hyphen its letter. -/
structure Parameter where
  name : String
  letter : Option Char := none
  use : Use
  deriving DecidableEq, Repr

structure Level where
  options : List Parameter
  /-- The parameter that is known by its place instead of a name. -/
  positional : Option Parameter := none
  /-- The commands that lead to levels of their own. -/
  commands : List String := []
  deriving Repr

/-- How far the arguments of a level have been read. -/
structure Reading where
  /-- The names of the parameters that were given, with their values. -/
  given : List (String × String) := []
  /-- A parameter that was met last, with its value unless that is yet to come. -/
  pending : Option (Parameter × Option String) := none
  /-- Whether everything that follows is a value. -/
  escaped : Bool := false
  /-- Whether the place of the positional parameter is taken. -/
  placed : Bool := false
  deriving Repr

namespace Reading

def has (reading : Reading) (name : String) : Bool := (reading.given.lookup name).isSome

/-- Whether the next argument is a value. -/
def expectsValue (reading : Reading) : Bool :=
  match reading.pending with
  | some (_, none) => !reading.escaped
  | _ => false

/-- Gives a parameter a value. -/
def give (reading : Reading) (parameter : Parameter) (value : String) : Except Stop Reading :=
  if reading.has parameter.name then .error .givenTwice
  else if parameter.use == .path && value.isEmpty then .error .badValue
  else .ok { reading with given := reading.given ++ [(parameter.name, value)] }

/-- Gives the parameter that is pending the value that was met. -/
def settle (reading : Reading) : Except Stop Reading :=
  match reading.pending with
  | none => .ok reading
  | some (_, none) => .error .badValue
  | some (parameter, some value) => { reading with pending := none }.give parameter value

/-- Reads an option to which no value is attached. -/
def readOption (reading : Reading) (option : Parameter) : Except Stop Reading := do
  let reading ← reading.settle
  match option.use with
  | .help => throw .helpWanted
  | .version => throw .versionWanted
  | .flag => reading.give option ""
  | .text | .path => return { reading with pending := some (option, none) }

/-- Reads an option to which a value is attached. -/
def readAttached (reading : Reading) (option : Parameter) (value : List Char) :
    Except Stop Reading := do
  (← reading.settle).give option (String.ofList value)

/-- Reads an option by its name, and the value behind an equals sign if there is one. -/
def readNamed (level : Level) (reading : Reading) (text : List Char) : Except Stop Reading :=
  let name := text.takeWhile (· != '=')
  match level.options.find? fun option => option.name.toList == name, text.drop name.length with
  | none, _ => .error .unknownArgument
  | some option, [] => reading.readOption option
  | some option, _ :: value =>
    if option.use.takesValue then reading.readAttached option value
    else .error .unexpectedValue

/-- The text behind an equals sign, or all of it. -/
def dropEquals : List Char → List Char
  | '=' :: rest => rest
  | text => text

/-- Reads options by their letters, of which the last one may have its value behind it. -/
def readLetters (level : Level) (reading : Reading) : List Char → Except Stop Reading
  | [] => .ok reading
  | letter :: rest =>
    match level.options.find? fun option => option.letter == some letter with
    | none => .error .unknownArgument
    | some option =>
      if option.use.takesValue && !rest.isEmpty then
        reading.readAttached option (dropEquals rest)
      else do readLetters level (← reading.readOption option) rest

/-- Reads the value of the positional parameter. -/
def readPlaced (level : Level) (reading : Reading) (value : String) : Except Stop Reading :=
  match level.positional, reading.placed with
  | some parameter, false => do
    let reading ← reading.settle
    return { reading with pending := some (parameter, some value), placed := true }
  | _, _ =>
    if level.commands.isEmpty || (reading.escaped && level.commands.contains value) then
      .error .unknownArgument
    else .error .unknownCommand

/-- Reads one argument that is no command. Two hyphens alone make everything that follows a
value, and a single hyphen is a value. -/
def step (level : Level) (reading : Reading) (argument : String) : Except Stop Reading :=
  if reading.escaped then reading.readPlaced level argument
  else
    match argument.toList with
    | ['-', '-'] => .ok { reading with escaped := true }
    | '-' :: '-' :: text => reading.readNamed level text
    | '-' :: letter :: rest => reading.readLetters level (letter :: rest)
    | _ =>
      match reading.pending with
      | some (parameter, none) => .ok { reading with pending := some (parameter, some argument) }
      | _ => reading.readPlaced level argument

/-- Reads arguments up to a command; what is left begins with the command. -/
def readAll (level : Level) (reading : Reading) :
    List String → Except Stop (Reading × List String)
  | [] => .ok (reading, [])
  | argument :: rest =>
    if !reading.escaped && !reading.expectsValue && level.commands.contains argument then
      .ok (reading, argument :: rest)
    else do readAll level (← reading.step level argument) rest

end Reading

end Marginalia.CommandLine
