import Marginalia.Workflow

/-! # What the translation of a file comes to

A file that cannot be opened changes nothing. One that can is translated as a document, and then the
edited document is written, unless the run is dry or there are no edits; a write that fails leaves
the tree as it was. Whatever becomes of the write, the workflow is the one after the document.
-/

namespace Marginalia.Workflow

variable {σ : Type} {workflow : Workflow σ} {tree : FileTree} {task : FileTask}
  {content language : String}

/-- A text with edits made in its lines. -/
def rewrittenText (content : String) (edits : List Edit) : String :=
  { Document.parse content with
    lines := Edit.applyAll edits (Document.parse content).lines }.render

/-- The report on the document of a file. -/
def fileReport (workflow : Workflow σ) (path content language : String) : FileReport :=
  ⟨path, language, (workflow.translateDocument (Document.parse content).lines language).1⟩

theorem openTask_eq_ok_iff :
    workflow.openTask tree task = .ok (content, language) ↔
      tree.pathExists task.input = true ∧
      workflow.languageFor task.input task.language = .ok language ∧
      tree.readText task.input = .ok content := by
  unfold openTask
  cases tree.pathExists task.input with
  | false => simp [bind, Except.bind, throw, throwThe, MonadExceptOf.throw]
  | true =>
      cases workflow.languageFor task.input task.language <;>
        cases tree.readText task.input <;>
        simp [bind, Except.bind, pure, Except.pure, throw, throwThe, MonadExceptOf.throw, and_comm]

theorem translateFile_of_openTask_error {failure : Failure}
    (h : workflow.openTask tree task = .error failure) :
    workflow.translateFile tree task = ⟨.error failure, tree, workflow⟩ := by
  simp only [translateFile, h]

theorem translateFile_of_openTask (h : workflow.openTask tree task = .ok (content, language)) :
    workflow.translateFile tree task =
      let report := workflow.fileReport task.input content language
      let later := (workflow.translateDocument (Document.parse content).lines language).2
      if task.dryRun || report.translation.edits.isEmpty then ⟨.ok report, tree, later⟩
      else
        match tree.writeText (task.output.getD task.input)
            (rewrittenText content report.translation.edits) with
        | .ok after => ⟨.ok report, after, later⟩
        | .error fault => ⟨.error (.file fault), tree, later⟩ := by
  simp only [translateFile, h]
  rfl

/-- A file that is opened is reported without a write, or written and reported, or its write
fails. -/
theorem translateFile_cases_opened (h : workflow.openTask tree task = .ok (content, language)) :
    let report := workflow.fileReport task.input content language
    let later := (workflow.translateDocument (Document.parse content).lines language).2
    ((task.dryRun = true ∨ report.translation.edits = []) ∧
      workflow.translateFile tree task = ⟨.ok report, tree, later⟩) ∨
    (task.dryRun = false ∧ report.translation.edits ≠ [] ∧ ∃ after,
      tree.writeText (task.output.getD task.input)
          (rewrittenText content report.translation.edits) = .ok after ∧
        workflow.translateFile tree task = ⟨.ok report, after, later⟩) ∨
    (task.dryRun = false ∧ report.translation.edits ≠ [] ∧ ∃ fault,
      tree.writeText (task.output.getD task.input)
          (rewrittenText content report.translation.edits) = .error fault ∧
        workflow.translateFile tree task = ⟨.error (.file fault), tree, later⟩) := by
  intro report later
  have hrun := translateFile_of_openTask h
  by_cases hskip : (task.dryRun || report.translation.edits.isEmpty) = true
  · have hskip' : task.dryRun = true ∨ report.translation.edits = [] := by simpa using hskip
    exact Or.inl ⟨hskip', hrun.trans (if_pos hskip)⟩
  · have hwrites : task.dryRun = false ∧ report.translation.edits ≠ [] := by simpa using hskip
    replace hrun := hrun.trans (if_neg hskip)
    right
    cases hwrite : tree.writeText (task.output.getD task.input)
        (rewrittenText content report.translation.edits) with
    | ok after =>
        rw [hwrite] at hrun
        exact Or.inl ⟨hwrites.1, hwrites.2, after, rfl, hrun⟩
    | error fault =>
        rw [hwrite] at hrun
        exact Or.inr ⟨hwrites.1, hwrites.2, fault, rfl, hrun⟩

/-- A file does to a workflow what its document does. -/
theorem workflow_translateFile_cases (workflow : Workflow σ) (tree : FileTree) (task : FileTask) :
    (workflow.translateFile tree task).workflow = workflow ∨ ∃ lines language,
      (workflow.translateFile tree task).workflow =
        (workflow.translateDocument lines language).2 := by
  cases hopen : workflow.openTask tree task with
  | error failure =>
      rw [translateFile_of_openTask_error hopen]
      exact Or.inl rfl
  | ok opened =>
      obtain ⟨content, language⟩ := opened
      rcases translateFile_cases_opened hopen with
        ⟨-, heq⟩ | ⟨-, -, after, -, heq⟩ | ⟨-, -, fault, -, heq⟩ <;>
        exact Or.inr ⟨(Document.parse content).lines, language, by rw [heq]⟩

end Marginalia.Workflow
