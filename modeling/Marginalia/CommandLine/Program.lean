import Marginalia.CommandLine.Overrides
import Marginalia.Pattern.Parser
import Marginalia.Startup

/-! # Running the program

What a run of the program prints and leaves behind, as a function of the arguments, the files
and the network. Every command works with the settings in force; one that fails prints nothing
and changes no file.
-/

namespace Marginalia.CommandLine

/-- How a run of the program ends. -/
structure Ending where
  exitCode : Nat
  /-- What was printed. -/
  output : String := ""
  /-- What went wrong in a command. -/
  error : Option String := none
  tree : FileTree

def version : String := "comment-translator 0.1.0"

def usage : String :=
  "Usage: comment-translator [OPTIONS] <COMMAND>\n\nCommands:\n" ++
    String.join (commandNames.map fun name => "  " ++ name ++ "\n")

/-- Where the program keeps its logs. -/
def logLocation : Location := [".comment-translator", "log"]

/-- The text with blanks behind it up to the width. -/
def padEnd (width : Nat) (text : String) : String :=
  text ++ String.ofList (List.replicate (width - text.length) ' ')

/-- The text with blanks before it up to the width. -/
def padStart (width : Nat) (text : String) : String :=
  String.ofList (List.replicate (width - text.length) ' ') ++ text

/-- The texts, each with a line feed. -/
def printed (lines : List String) : String := String.join (lines.map (· ++ "\n"))

/-! ## Reports -/

/-- The lines that show an edit: the line before and after. Lines count from one. -/
def editLines (edit : Edit) : List String :=
  let number := padStart 5 (toString (edit.line + 1))
  ["  " ++ number ++ " - " ++ Text.trim edit.before,
    "  " ++ number ++ " + " ++ Text.trim edit.after]

/-- The line that sums up what came of a file. -/
def summary (report : FileReport) : String :=
  let translation := report.translation
  report.path ++ " (" ++ report.language ++ "): " ++ toString translation.translated ++ "/" ++
    toString translation.commentsFound ++ " comments translated, " ++
    toString translation.failed ++ " failed" ++
    (if translation.cancelled then ", cancelled" else "")

/-- The lines on a file: the summary, and the edits when they were not written. -/
def reportLines (dryRun : Bool) (report : FileReport) : List String :=
  summary report :: if dryRun then report.translation.edits.flatMap editLines else []

/-- The lines on the files of a directory, with the totals at the end. -/
def batchLines (dryRun : Bool) (reports : List FileReport) : List String :=
  let translated := reports.foldl (fun total report => total + report.translation.translated) 0
  reports.flatMap (reportLines dryRun) ++
    ["", toString reports.length ++ " files, " ++ toString translated ++ " comments translated"]

/-- The lines that list comments. -/
def commentLines : List (Nat × Comment) → List String
  | [] => ["No comments found."]
  | comments =>
    (padEnd 8 "Line" ++ " Comment") :: String.ofList (List.replicate 60 '-') ::
      comments.map fun (line, comment) => padEnd 8 (toString (line + 1)) ++ " " ++ comment.body

def commentData (comment : Comment) : Data :=
  .ofFields [("prefix", .ofString comment.opening), ("comment", .ofString comment.body),
    ("suffix", .ofString comment.closing)]

/-- The value that describes comments with their lines, which count from zero. -/
def commentsData (comments : List (Nat × Comment)) : Data :=
  .list (comments.map fun (line, comment) => .list [.ofNat line, commentData comment])

/-! ## Commands -/

/-- Lists the comments of a file. -/
def extractFile {σ : Type} (workflow : Workflow σ) (tree : FileTree) (input : String)
    (language : Option String) (json : Bool) : Except String (List String) :=
  match workflow.languageFor input language, tree.readText input with
  | .error failure, _ => .error failure.message
  | .ok _, .error fault => .error fault.message
  | .ok language, .ok content =>
    let comments := workflow.registry.comments (Document.parse content).lines language
    .ok (if json then [Json.pretty (commentsData comments)] else commentLines comments)

/-- Writes settings to a file, over one that is there only by force. -/
def writeSettings (settings : Settings) (tree : FileTree) (path : String) (force : Bool) :
    Except Failure FileTree :=
  if tree.pathExists path && !force then .error (.setting (.alreadyExists path))
  else settings.save tree path

/-- Carries out a command: the lines that it prints and the files that it leaves. -/
def Command.execute {σ : Type} (command : Command) (settings : Settings) (workflow : Workflow σ)
    (tree : FileTree) : Except String (List String × FileTree) :=
  match command with
  | .translate task json =>
    let outcome := workflow.translateFile tree task
    match outcome.result with
    | .error failure => .error failure.message
    | .ok report =>
      .ok (if json then [Json.pretty report.toData] else reportLines task.dryRun report,
        outcome.tree)
  | .batch directory dryRun json =>
    let outcome := workflow.translateDirectory tree directory dryRun
    match outcome.result with
    | .error failure => .error failure.message
    | .ok reports =>
      .ok (if json then [Json.pretty (.list (reports.map FileReport.toData))]
        else batchLines dryRun reports, outcome.tree)
  | .extract input language json =>
    (extractFile workflow tree input language json).map fun lines => (lines, tree)
  | .text wanted =>
    match (workflow.session.translate (workflow.options.request wanted)).1 with
    | .error failure => .error failure.message
    | .ok translation => .ok ([translation.text], tree)
  | .languages =>
    .ok (("Fallback: " ++ workflow.registry.fallback) ::
      workflow.registry.ids.map ("  " ++ ·), tree)
  | .initConfig path force =>
    match writeSettings settings tree path force with
    | .error failure => .error failure.message
    | .ok tree => .ok (["Wrote configuration to " ++ path], tree)

def Arguments.execute [Pattern.Compiler] {σ : Type} (arguments : Arguments) (tree : FileTree)
    (network : Http.Network σ) (pause : σ → Bool × σ) (state : σ) :
    Except String (List String × FileTree) := do
  let tree ← (tree.makeDirectory logLocation).mapError FileFault.message
  let settings ← (arguments.settings tree).mapError Failure.message
  let workflow ← (Workflow.ofSettings settings tree network pause state).mapError Failure.message
  arguments.command.execute settings workflow tree

/-- Ends a run without a command. Asking for help or for the version is no mistake. -/
def Stop.ending (tree : FileTree) : Stop → Ending
  | .helpWanted => { exitCode := 0, output := usage, tree }
  | .versionWanted => { exitCode := 0, output := printed [version], tree }
  | _ => { exitCode := 2, tree }

def run [Pattern.Compiler] {σ : Type} (arguments : List String) (tree : FileTree)
    (network : Http.Network σ) (pause : σ → Bool × σ) (state : σ) : Ending :=
  match Arguments.read arguments with
  | .error stop => stop.ending tree
  | .ok arguments =>
    match arguments.execute tree network pause state with
    | .error message => { exitCode := 1, error := some message, tree }
    | .ok (lines, tree) => { exitCode := 0, output := printed lines, tree }

end Marginalia.CommandLine
