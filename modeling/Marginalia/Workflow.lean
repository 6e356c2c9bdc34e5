import Marginalia.Comment
import Marginalia.FileTree
import Marginalia.History
import Marginalia.Json.Printer
import Marginalia.Translation.Session

/-! # Translating documents, files and directories

A workflow joins a registry, a session, an undo history and the options of its requests. A
document is translated comment by comment; the changes are reported and recorded, and writing
them into the document is a step of its own.
-/

namespace Marginalia

/-- What came of the translation of a document. -/
structure Report where
  edits : List Edit := []
  commentsFound : Nat := 0
  failed : Nat := 0
  cancelled : Bool := false
  deriving DecidableEq, Repr

def Report.translated (report : Report) : Nat := report.edits.length

structure FileReport where
  path : String
  language : String
  translation : Report
  deriving DecidableEq, Repr

/-- A comment with its translation, before anything is changed. -/
structure Preview where
  comment : Comment
  translation : Translation
  deriving DecidableEq, Repr

def Edit.toData (edit : Edit) : Data :=
  .ofFields [("line_number", .ofNat edit.line), ("original", .ofString edit.before),
    ("translated", .ofString edit.after)]

def Report.toData (report : Report) : Data :=
  .ofFields [("edits", .list (report.edits.map Edit.toData)),
    ("comments_found", .ofNat report.commentsFound), ("failed", .ofNat report.failed),
    ("cancelled", .bool report.cancelled)]

def FileReport.toData (report : FileReport) : Data :=
  .ofFields [("path", .ofString report.path), ("language", .ofString report.language),
    ("translation", report.translation.toData)]

/-- Everything that translating comments needs. -/
structure Workflow (σ : Type) where
  registry : Registry
  session : Session σ
  history : History
  options : Options

namespace Workflow

variable {σ : Type}

/-! ## Documents -/

/-- The edit that the outcome for a comment calls for; a failure calls for none. -/
def editFor (lines : List String) :
    (Nat × Comment) × Except Failure Translation → Option Edit
  | ((line, comment), .ok translation) =>
    some ⟨line, lines[line]?.getD "", comment.withBody translation.text⟩
  | (_, .error _) => none

/-- The report on the comments of a document, of which the first ones have outcomes. -/
def reportOn (lines : List String) (comments : List (Nat × Comment))
    (outcomes : List (Except Failure Translation)) : Report :=
  let edits := (comments.zip outcomes).filterMap (editFor lines)
  { edits
    commentsFound := comments.length
    failed := outcomes.length - edits.length
    cancelled := outcomes.length < comments.length }

/-- Translates the comments of a document, one request at a time, and records the changes. The
document itself stays as it is. -/
def translateDocument (workflow : Workflow σ) (lines : List String) (language : String) :
    Report × Workflow σ :=
  let comments := workflow.registry.comments lines language
  let run := workflow.session.run
    (comments.map fun (_, comment) => workflow.options.request comment.body)
  let report := reportOn lines comments run.outcomes
  (report,
    { workflow with
      session := run.session
      history := workflow.history.addAll report.edits })

/-- The progress that a report stands for: after each handled comment how many are done, and of
how many. -/
def progress (report : Report) : List (Nat × Nat) :=
  (List.range (report.translated + report.failed)).map fun done =>
    (done + 1, report.commentsFound)

/-- Translates a text that was selected on a line, and records the change. -/
def translateSelection (workflow : Workflow σ) (text : String) (line : Nat) :
    Except Failure Translation × Workflow σ :=
  let (outcome, session) := workflow.session.translate (workflow.options.request text)
  let history := match outcome with
    | .ok translation => workflow.history.add ⟨line, text, translation.text⟩
    | .error _ => workflow.history
  (outcome, { workflow with session, history })

/-- Takes the newest change back. It counts as taken back even when its line is gone. -/
def undo (workflow : Workflow σ) (lines : List String) :
    Except Failure (Option Edit) × List String × Workflow σ :=
  match workflow.history.newest? with
  | none => (.ok none, lines, workflow)
  | some edit =>
    let workflow := { workflow with history := workflow.history.dropNewest }
    if edit.line < lines.length then
      (.ok (some edit), lines.set edit.line edit.before, workflow)
    else (.error (.lineOutOfRange edit.line lines.length), lines, workflow)

/-- Shows the translation of the comment on a line. Nothing is recorded, and a failure shows
nothing. -/
def preview (workflow : Workflow σ) (line language : String) :
    Option Preview × Workflow σ :=
  match workflow.registry.extract? line language with
  | none => (none, workflow)
  | some comment =>
    let (outcome, session) := workflow.session.translate (workflow.options.request comment.body)
    let shown := match outcome with
      | .ok translation => some ⟨comment, translation⟩
      | .error _ => none
    (shown, { workflow with session })

/-! ## Files -/

/-- The language of a file: the one that is asked for, or else the one of its extension. -/
def languageFor (workflow : Workflow σ) (path : String) : Option String → Except Failure String
  | some language => .ok language
  | none =>
    match workflow.registry.languageOf? path with
    | some language => .ok language
    | none => .error (.setting (.unknownLanguage path))

/-- What a file operation leaves behind. -/
structure Outcome (σ : Type) (α : Type) where
  result : Except Failure α
  tree : FileTree
  workflow : Workflow σ

/-- Where and how a file is translated. -/
structure FileTask where
  input : String
  /-- Where the result goes, if not into the file itself. -/
  output : Option String := none
  language : Option String := none
  /-- Whether the result is only reported. -/
  dryRun : Bool := false

/-- The text and the language of the file of a task. -/
def openTask (workflow : Workflow σ) (tree : FileTree) (task : FileTask) :
    Except Failure (String × String) := do
  if !tree.pathExists task.input then throw (.missingFile task.input)
  let language ← workflow.languageFor task.input task.language
  match tree.readText task.input with
  | .ok content => return (content, language)
  | .error fault => throw (.file fault)

/-- Translates the comments of a file and writes the file when something was translated. -/
def translateFile (workflow : Workflow σ) (tree : FileTree) (task : FileTask) :
    Outcome σ FileReport :=
  match workflow.openTask tree task with
  | .error failure => ⟨.error failure, tree, workflow⟩
  | .ok (content, language) =>
    let document := Document.parse content
    let (translation, workflow) := workflow.translateDocument document.lines language
    let report : FileReport := ⟨task.input, language, translation⟩
    if task.dryRun || translation.edits.isEmpty then ⟨.ok report, tree, workflow⟩
    else
      let lines := Edit.applyAll translation.edits document.lines
      let target := task.output.getD task.input
      match tree.writeText target { document with lines }.render with
      | .ok tree => ⟨.ok report, tree, workflow⟩
      | .error fault => ⟨.error (.file fault), tree, workflow⟩

/-- Translates files one after the other until the session is cancelled; files that fail are
passed over. -/
def translateFiles (dryRun : Bool) (workflow : Workflow σ) (tree : FileTree) :
    List String → List FileReport × FileTree × Workflow σ
  | [] => ([], tree, workflow)
  | path :: paths =>
    if workflow.session.cancelled then ([], tree, workflow)
    else
      let outcome := workflow.translateFile tree { input := path, dryRun }
      let (reports, rest) := translateFiles dryRun outcome.workflow outcome.tree paths
      match outcome.result with
      | .ok report => (report :: reports, rest)
      | .error _ => (reports, rest)

/-- Translates the files of known languages below a directory. -/
def translateDirectory (workflow : Workflow σ) (tree : FileTree) (directory : String)
    (dryRun : Bool) : Outcome σ (List FileReport) :=
  if tree.isDirectory directory then
    let paths := (tree.visibleFiles directory).filter fun path =>
      (workflow.registry.languageOf? path).isSome
    let (reports, tree, workflow) := translateFiles dryRun workflow tree paths
    ⟨.ok reports, tree, workflow⟩
  else ⟨.error (.setting (.notDirectory directory)), tree, workflow⟩

end Workflow

end Marginalia
