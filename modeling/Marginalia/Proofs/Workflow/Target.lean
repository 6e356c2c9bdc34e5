import Marginalia.Language.Builtin
import Marginalia.Pattern.Parser
import Marginalia.Proofs.FileTree.Frame
import Marginalia.Proofs.Workflow.Cancellation
import Marginalia.Proofs.Workflow.Files
import Marginalia.Proofs.Workflow.Report

/-! # A file is translated into its target

The translation of a file writes at most one file: the output that is asked for, or else the input.
What it writes is the document that was read with the edits of the report made in its lines, however
far the run came. A file that cannot be opened is refused before anything is translated, and a run
that only reports writes nothing.
-/

namespace Marginalia

/-- Whether lines are those of a document with edits made in them: each edit has its line, and the
other lines are as they were. -/
structure Edit.MadeIn (edits : List Edit) (lines edited : List String) : Prop where
  length_eq : edited.length = lines.length
  edited_eq : ∀ edit ∈ edits, edited[edit.line]? = some edit.after
  kept_eq : ∀ index, (∀ edit ∈ edits, edit.line ≠ index) → edited[index]? = lines[index]?

/-- Edits of lines that are there can be made when no two of them share a line. -/
theorem Edit.madeIn_applyAll {edits : List Edit} {lines : List String}
    (hlines : edits.Pairwise fun first second => first.line ≠ second.line)
    (hlt : ∀ edit ∈ edits, edit.line < lines.length) :
    Edit.MadeIn edits lines (Edit.applyAll edits lines) := by
  constructor
  case length_eq => exact length_applyAll
  case edited_eq =>
    intro edit hmem
    rw [applyAll_eq_mapIdx hlines, List.getElem?_mapIdx, List.getElem?_eq_getElem (hlt edit hmem),
      textAt?_of_mem hmem hlines]
    rfl
  case kept_eq =>
    intro index hother
    rw [applyAll_eq_mapIdx hlines, List.getElem?_mapIdx, textAt?_eq_none hother]
    simp

namespace Workflow

variable {σ : Type} {workflow : Workflow σ} {tree : FileTree} {task : FileTask}
  {content language : String} {failure : Failure}

/-- The path to which the result of a task goes. -/
def FileTask.target (task : FileTask) : String := task.output.getD task.input

theorem madeIn_translateDocument (workflow : Workflow σ) (lines : List String)
    (language : String) :
    let edits := (workflow.translateDocument lines language).1.edits
    Edit.MadeIn edits lines (Edit.applyAll edits lines) := by
  refine Edit.madeIn_applyAll
    ((workflow.pairwise_translateDocument lines language).imp Nat.ne_of_lt) fun edit hmem => ?_
  have hbefore := workflow.before_of_mem_translateDocument lines language hmem
  exact (List.getElem?_eq_some_iff.mp hbefore).1

/-! ## Files that are refused -/

/-- Why the file of a task cannot be opened. It is looked for first, then its language is, and then
it is read. -/
inductive Refused (workflow : Workflow σ) (tree : FileTree) (task : FileTask) : Failure → Prop
  | missing (habsent : tree.pathExists task.input = false) :
    Refused workflow tree task (.missingFile task.input)
  | unknown (hexists : tree.pathExists task.input = true) (hlanguage : task.language = none)
    (hnone : workflow.registry.languageOf? task.input = none) :
    Refused workflow tree task (.setting (.unknownLanguage task.input))
  | unreadable {language : String} {fault : FileFault}
    (hexists : tree.pathExists task.input = true)
    (hlanguage : workflow.languageFor task.input task.language = .ok language)
    (hread : tree.readText task.input = .error fault) :
    Refused workflow tree task (.file fault)

theorem languageFor_eq_error_iff {path : String} {asked : Option String} :
    workflow.languageFor path asked = .error failure ↔
      asked = none ∧ workflow.registry.languageOf? path = none ∧
        failure = .setting (.unknownLanguage path) := by
  cases asked with
  | some language => simp [languageFor]
  | none =>
      cases hfound : workflow.registry.languageOf? path <;>
        simp [languageFor, hfound, eq_comm]

/-- A file is refused for the first of the reasons that there is, and opened if there is none. -/
theorem openTask_eq_error_iff :
    workflow.openTask tree task = .error failure ↔ workflow.Refused tree task failure := by
  constructor
  · intro h
    unfold openTask at h
    cases hexists : tree.pathExists task.input with
    | false =>
        rw [hexists] at h
        cases h
        exact .missing hexists
    | true =>
        cases hlanguage : workflow.languageFor task.input task.language with
        | error unknown =>
            rw [hexists, hlanguage] at h
            cases h
            obtain ⟨hasked, hnone, rfl⟩ := languageFor_eq_error_iff.mp hlanguage
            exact .unknown hexists hasked hnone
        | ok language =>
            cases hread : tree.readText task.input with
            | ok content =>
                rw [hexists, hlanguage, hread] at h
                cases h
            | error fault =>
                rw [hexists, hlanguage, hread] at h
                cases h
                exact .unreadable hexists hlanguage hread
  · rintro (habsent | ⟨hexists, hasked, hnone⟩ | ⟨hexists, hlanguage, hread⟩)
    case missing =>
      unfold openTask
      rw [habsent]
      rfl
    case unknown =>
      unfold openTask
      rw [hexists, languageFor_eq_error_iff.mpr ⟨hasked, hnone, rfl⟩]
      rfl
    case unreadable =>
      unfold openTask
      rw [hexists, hlanguage, hread]
      rfl

/-! ## Files that are opened -/

/-- What comes of a file with a text and a language: the document is translated, and the tree has
it with its edits at the target, or stays as it is. -/
structure Rendered (workflow : Workflow σ) (tree : FileTree) (task : FileTask)
    (content language : String) (after : Outcome σ FileReport) : Prop where
  workflow_eq : after.workflow =
    (workflow.translateDocument (Document.parse content).lines language).2
  report_eq : ∀ report, after.result = .ok report → report = ⟨task.input, language,
    (workflow.translateDocument (Document.parse content).lines language).1⟩
  /-- Only a write to another file can fail, and only if nothing can be written there. -/
  succeeds : task.dryRun = true ∨ task.output = none → ∃ report, after.result = .ok report
  failed : ∀ failure, after.result = .error failure → after.tree = tree ∧
    ∃ fault, failure = .file fault ∧ ∀ text, tree.writeText task.target text = .error fault
  dry : task.dryRun = true → after.tree = tree
  unedited : ∀ report, after.result = .ok report → report.translation.edits = [] →
    after.tree = tree
  /-- The target has the edited document, also when the run was cancelled on the way. -/
  written : ∀ report, after.result = .ok report → task.dryRun = false →
    report.translation.edits ≠ [] → ∃ edited,
      Edit.MadeIn report.translation.edits (Document.parse content).lines edited ∧
        after.tree.readText task.target = .ok { Document.parse content with lines := edited }.render

/-- A tree stays as it is when what is reported on, if anything, need not be written. -/
theorem rendered_of_kept {result : Except Failure FileReport}
    (hreport : ∀ report, result = .ok report →
      report = workflow.fileReport task.input content language)
    (hskip : ∀ report, result = .ok report →
      task.dryRun = true ∨ report.translation.edits = [])
    (hfailed : ∀ failure, result = .error failure → ∃ fault, failure = .file fault ∧
      ∀ text, tree.writeText task.target text = .error fault)
    (hsucceeds : task.dryRun = true ∨ task.output = none → ∃ report, result = .ok report) :
    workflow.Rendered tree task content language ⟨result, tree,
      (workflow.translateDocument (Document.parse content).lines language).2⟩ := by
  constructor
  case workflow_eq => rfl
  case report_eq => exact hreport
  case succeeds => exact hsucceeds
  case failed => exact fun failure hfailure => ⟨rfl, hfailed failure hfailure⟩
  case dry => exact fun _ => rfl
  case unedited => exact fun _ _ _ => rfl
  case written =>
    intro report hresult hdry hedits
    rcases hskip report hresult with hskip | hnil
    · rw [hdry] at hskip
      cases hskip
    · exact absurd hnil hedits

theorem rendered_translateFile (h : workflow.openTask tree task = .ok (content, language)) :
    workflow.Rendered tree task content language (workflow.translateFile tree task) := by
  obtain ⟨-, -, hread⟩ := openTask_eq_ok_iff.mp h
  rcases translateFile_cases_opened h with
    ⟨hskip, heq⟩ | ⟨hdry, hedits, after, hwrite, heq⟩ | ⟨hdry, hedits, fault, hwrite, heq⟩
  · rw [heq]
    apply rendered_of_kept
    case hreport => exact fun report hreport => (Except.ok.inj hreport).symm
    case hskip =>
      intro report hreport
      cases hreport
      exact hskip
    case hfailed =>
      intro failure hfailure
      cases hfailure
    case hsucceeds => exact fun _ => ⟨_, rfl⟩
  · rw [heq]
    constructor
    case workflow_eq => rfl
    case report_eq => exact fun report hreport => (Except.ok.inj hreport).symm
    case succeeds => exact fun _ => ⟨_, rfl⟩
    case failed =>
      intro failure hfailure
      cases hfailure
    case dry =>
      intro hdry'
      rw [hdry] at hdry'
      cases hdry'
    case unedited =>
      intro report hreport hnil
      cases hreport
      exact absurd hnil hedits
    case written =>
      intro report hreport _ _
      cases hreport
      exact ⟨_, workflow.madeIn_translateDocument _ language,
        FileTree.readText_of_writeText hwrite⟩
  · rw [heq]
    apply rendered_of_kept
    case hreport =>
      intro report hreport
      cases hreport
    case hskip =>
      intro report hreport
      cases hreport
    case hfailed =>
      intro failure hfailure
      cases hfailure
      exact ⟨fault, rfl, FileTree.writeText_eq_error hwrite⟩
    case hsucceeds =>
      rintro (hdry' | hinplace)
      · rw [hdry] at hdry'
        cases hdry'
      · -- What was read can be written again.
        rw [hinplace, Option.getD_none] at hwrite
        obtain ⟨after, hwritten⟩ := FileTree.exists_writeText_of_readText hread _
        rw [hwritten] at hwrite
        cases hwrite

theorem differsOnlyAt_translateFile (workflow : Workflow σ) (tree : FileTree) (task : FileTask) :
    tree.DiffersOnlyAt (workflow.translateFile tree task).tree task.target := by
  cases hopen : workflow.openTask tree task with
  | error failure =>
      rw [translateFile_of_openTask_error hopen]
      exact .refl tree _
  | ok opened =>
      obtain ⟨content, language⟩ := opened
      rcases translateFile_cases_opened hopen with
        ⟨-, heq⟩ | ⟨-, -, after, hwrite, heq⟩ | ⟨-, -, fault, -, heq⟩
      · rw [heq]
        exact .refl tree _
      · rw [heq]
        exact FileTree.differsOnlyAt_of_writeText hwrite
      · rw [heq]
        exact .refl tree _

/-- Whether the translation of a file keeps to its target: nothing else changes in the tree, a file
that is refused leaves the workflow with all that its translators keep as it was, and one that is
opened is rendered. -/
structure KeepsToTarget (workflow : Workflow σ) (tree : FileTree) (task : FileTask)
    (after : Outcome σ FileReport) : Prop where
  differsOnlyAt : tree.DiffersOnlyAt after.tree task.target
  refused : ∀ failure, workflow.Refused tree task failure → after = ⟨.error failure, tree, workflow⟩
  opened : ∀ content language, tree.pathExists task.input = true →
    workflow.languageFor task.input task.language = .ok language →
    tree.readText task.input = .ok content → workflow.Rendered tree task content language after

/-- The translation of a file keeps to its target, whatever the translators and the pauses do and
whenever the session is cancelled. -/
theorem keepsToTarget_translateFile (workflow : Workflow σ) (tree : FileTree) (task : FileTask) :
    workflow.KeepsToTarget tree task (workflow.translateFile tree task) := by
  constructor
  case differsOnlyAt => exact workflow.differsOnlyAt_translateFile tree task
  case refused =>
    intro failure hrefused
    exact translateFile_of_openTask_error (openTask_eq_error_iff.mpr hrefused)
  case opened =>
    intro content language hexists hlanguage hread
    exact rendered_translateFile (openTask_eq_ok_iff.mpr ⟨hexists, hlanguage, hread⟩)

-- A run that is cancelled after the first of two comments writes the one that it has.
example : Registry.builtin.toOption.map (fun registry =>
    let tree : FileTree := { files := [(["a.c"], .text "// a\r\nint x;\r\n// b")] }
    let after := (⟨registry, stoppingAt 1, ⟨5, []⟩, { }⟩ : Workflow Nat).translateFile tree
      { input := "a.c", output := some "b.c" }
    ["a.c", "b.c"].map fun path => (after.tree.readText path).toOption) =
      some [some "// a\r\nint x;\r\n// b", some "// a!\r\nint x;\r\n// b"] := by
  decide +kernel

end Workflow

end Marginalia
