import Marginalia.Proofs.History
import Marginalia.Proofs.Workflow.Files
import Marginalia.Proofs.Workflow.Undo

/-! # What the history records of a file

The history gets every edit of the document of a file as the document is translated, so before it
is decided whether the file is written. A dry run and a write that fails leave edits in the history
that were made nowhere, and the next undo takes back the last of them. Only a file that cannot be
opened and a run without edits leave the history as it was without a write.
-/

namespace Marginalia

namespace History

variable {history : History} {edits : List Edit}

/-- The entries with more changes behind them, as far as there is room. -/
theorem entries_addAll (h : history.size ≤ history.capacity) :
    (history.addAll edits).entries = (history.entries ++ edits).drop
      ((history.entries ++ edits).length - history.capacity) := by
  induction edits generalizing history with
  | nil =>
      have hfits : (history.entries ++ []).length - history.capacity = 0 := by
        rw [List.append_nil]
        exact Nat.sub_eq_zero_of_le h
      rw [hfits, List.append_nil]
      rfl
  | cons edit edits ih =>
      have hdrop : history.size + 1 - history.capacity ≤ (history.entries ++ [edit]).length := by
        rw [List.length_append]
        exact Nat.sub_le ..
      refine (ih (size_add_le h)).trans ?_
      rw [entries_add h, capacity_add, ← List.drop_append_of_le_length hdrop, List.drop_drop]
      simp only [List.append_assoc, List.singleton_append, List.length_append, List.length_drop,
        List.length_cons, size]
      congr 1
      omega

/-- The newest entry is the last change that was added. -/
theorem newest?_addAll {edit : Edit} (hlast : edits.getLast? = some edit)
    (hroom : 0 < history.capacity) : (history.addAll edits).newest? = some edit := by
  obtain ⟨earlier, rfl⟩ := List.getLast?_eq_some_iff.mp hlast
  have hkeeps : (history.addAll (earlier ++ [edit])).Keeps history.capacity
      ([] ++ (earlier ++ [edit])) := keeps_nil.addAll
  obtain ⟨count, hcount⟩ := Nat.exists_eq_add_one_of_ne_zero (Nat.ne_of_gt hroom)
  rw [hcount] at hkeeps
  exact hkeeps.newest.1

/-- A log with room for one more entry shows whether changes were added. -/
theorem addAll_eq_self_iff (hroom : history.size < history.capacity) :
    history.addAll edits = history ↔ edits = [] := by
  constructor
  · intro h
    have hentries : (history.addAll edits).entries = _ := entries_addAll (Nat.le_of_lt hroom)
    rw [h] at hentries
    have hlength := congrArg List.length hentries
    rw [size] at hroom
    rw [List.length_drop, List.length_append] at hlength
    exact List.eq_nil_of_length_eq_zero (by omega)
  · rintro rfl
    rfl

end History

namespace Workflow

variable {σ : Type} (workflow : Workflow σ) (tree : FileTree) (task : FileTask)

/-- The edits to which the translation of a file comes, which are none if it cannot be opened. -/
def plannedEdits : List Edit :=
  match workflow.openTask tree task with
  | .ok (content, language) => (workflow.fileReport task.input content language).translation.edits
  | .error _ => []

/-- The edits that were written to the target: those of a report that is not of a dry run. -/
def writtenEdits : List Edit :=
  match (workflow.translateFile tree task).result with
  | .ok report => if task.dryRun then [] else report.translation.edits
  | .error _ => []

/-- Whether the edits of a run were written to its target, or there are none and the tree is as it
was. -/
def WritesPlanned : Prop :=
  (workflow.plannedEdits tree task = [] ∧ (workflow.translateFile tree task).tree = tree) ∨
    ∃ content, tree.readText task.input = .ok content ∧
      tree.writeText (task.output.getD task.input)
        (rewrittenText content (workflow.plannedEdits tree task)) =
          .ok (workflow.translateFile tree task).tree

theorem history_translateFile_eq :
    (workflow.translateFile tree task).workflow.history =
      workflow.history.addAll (workflow.plannedEdits tree task) := by
  unfold plannedEdits
  cases hopen : workflow.openTask tree task with
  | error failure =>
      rw [translateFile_of_openTask_error hopen]
      rfl
  | ok opened =>
      obtain ⟨content, language⟩ := opened
      rcases translateFile_cases_opened hopen with
        ⟨-, heq⟩ | ⟨-, -, after, -, heq⟩ | ⟨-, -, fault, -, heq⟩ <;> rw [heq] <;> rfl

/-- The planned edits are written all of them, or none of them is and the tree is as it was. -/
theorem writtenEdits_cases :
    (workflow.writtenEdits tree task = workflow.plannedEdits tree task ∧
      workflow.WritesPlanned tree task) ∨
    (workflow.writtenEdits tree task = [] ∧ workflow.plannedEdits tree task ≠ [] ∧
      (workflow.translateFile tree task).tree = tree ∧
      (task.dryRun = true ∨
        ∃ fault, (workflow.translateFile tree task).result = .error (.file fault))) := by
  cases hopen : workflow.openTask tree task with
  | error failure =>
      left
      simp [writtenEdits, plannedEdits, WritesPlanned, translateFile_of_openTask_error hopen, hopen]
  | ok opened =>
      obtain ⟨content, language⟩ := opened
      obtain ⟨-, -, hread⟩ := openTask_eq_ok_iff.mp hopen
      have hplanned : workflow.plannedEdits tree task =
          (workflow.fileReport task.input content language).translation.edits := by
        simp only [plannedEdits, hopen]
      unfold writtenEdits WritesPlanned
      rw [hplanned]
      rcases translateFile_cases_opened hopen with
        ⟨hskip, heq⟩ | ⟨hdry, hedits, after, hwrite, heq⟩ | ⟨hdry, hedits, fault, -, heq⟩
      · by_cases hedits : (workflow.fileReport task.input content language).translation.edits = []
        · left
          simp [heq, hedits]
        · have hdry := hskip.resolve_right hedits
          exact Or.inr ⟨by simp [heq, hdry], hedits, by rw [heq], Or.inl hdry⟩
      · left
        refine ⟨by simp [heq, hdry], Or.inr ⟨content, hread, ?_⟩⟩
        rw [hwrite, heq]
      · exact Or.inr ⟨by simp [heq], hedits, by rw [heq], Or.inr ⟨fault, by rw [heq]⟩⟩

/-- The history of a file that is translated has all planned edits behind what was there. That is
what was written exactly when the edits were written or there are none; a file that cannot be
opened changes nothing at all. Otherwise the run was dry or its write failed, nothing was written,
and an undo takes back the last edit although it was never made. -/
theorem history_translateFile_written_iff :
    let after := workflow.translateFile tree task
    let planned := workflow.plannedEdits tree task
    let written := workflow.writtenEdits tree task
    after.workflow.history = workflow.history.addAll planned ∧
    (workflow.history.size ≤ workflow.history.capacity → after.workflow.history.entries =
      (workflow.history.entries ++ planned).drop
        ((workflow.history.entries ++ planned).length - workflow.history.capacity)) ∧
    (∀ failure, workflow.openTask tree task = .error failure →
      after = ⟨.error failure, tree, workflow⟩) ∧
    (written = planned → after.workflow.history = workflow.history.addAll written ∧
      workflow.WritesPlanned tree task) ∧
    (workflow.history.size < workflow.history.capacity →
      (after.workflow.history = workflow.history.addAll written ↔ written = planned)) ∧
    (written ≠ planned → written = [] ∧ after.tree = tree ∧
      (task.dryRun = true ∨ ∃ fault, after.result = .error (.file fault)) ∧
      (0 < workflow.history.capacity → ∃ edit, planned.getLast? = some edit ∧
        ∀ lines : List String, edit.line < lines.length →
          after.workflow.undo lines = (.ok (some edit), lines.set edit.line edit.before,
            { after.workflow with history := after.workflow.history.dropNewest }))) := by
  intro after planned written
  have hhistory : after.workflow.history = workflow.history.addAll planned :=
    workflow.history_translateFile_eq tree task
  have hcases := workflow.writtenEdits_cases tree task
  refine ⟨hhistory, fun hfits => ?_, fun failure => translateFile_of_openTask_error,
    fun hwritten => ?_, fun hroom => ⟨fun hsame => ?_, fun hwritten => hwritten ▸ hhistory⟩,
    fun hne => ?_⟩
  · rw [hhistory]
    exact History.entries_addAll hfits
  · refine ⟨hwritten ▸ hhistory, ?_⟩
    rcases hcases with ⟨-, hwrites⟩ | ⟨hnil, hplanned, -⟩
    · exact hwrites
    · exact absurd (hwritten.symm.trans hnil) hplanned
  · rcases hcases with ⟨hwritten, -⟩ | ⟨hnil, hplanned, -⟩
    · exact hwritten
    · have hself : workflow.history.addAll planned = workflow.history := by
        rw [← hhistory, hsame]
        exact congrArg workflow.history.addAll hnil
      exact absurd ((History.addAll_eq_self_iff hroom).mp hself) hplanned
  · rcases hcases with ⟨hwritten, -⟩ | ⟨hnil, hplanned, htree, hwhy⟩
    · exact absurd hwritten hne
    · refine ⟨hnil, htree, hwhy, fun hcapacity => ?_⟩
      have hlast : planned.getLast? = some (planned.getLast hplanned) :=
        List.getLast?_eq_some_getLast hplanned
      refine ⟨_, hlast, fun lines hlt => ?_⟩
      have hnewest : after.workflow.history.newest? = some (planned.getLast hplanned) := by
        rw [hhistory]
        exact History.newest?_addAll hlast hcapacity
      simp only [undo, hnewest, hlt, if_true]

/-- A directory with one file, whose comments are marked as English. -/
def marking (registry : Registry) : Workflow Unit :=
  ⟨registry, .answering ("[en] " ++ ·), ⟨50, []⟩, { }⟩

def noteTree : FileTree := ⟨[(["a.c"], .text "// b\n")], []⟩

/-- A dry run and a write into a directory that is not there are recorded, although the tree stays
as it was, and undo takes the edit back. -/
theorem exists_history_ne_written :
    ∃ registry, Registry.builtin = .ok registry ∧
      ∀ task ∈ [({ input := "a.c", dryRun := true } : FileTask),
          { input := "a.c", output := some "no/a.c" }],
        let after := (marking registry).translateFile noteTree task
        after.tree = noteTree ∧ (marking registry).writtenEdits noteTree task = [] ∧
          after.workflow.history.entries = [⟨0, "// b", "// [en] b"⟩] ∧
          after.workflow.history ≠ (marking registry).history.addAll
            ((marking registry).writtenEdits noteTree task) ∧
          (after.workflow.undo ["// b"]).1.toOption = some (some ⟨0, "// b", "// [en] b"⟩) := by
  obtain ⟨registry, hbuiltin, hcheck⟩ := Registry.exists_builtin
    (fun registry => ∀ task ∈ [({ input := "a.c", dryRun := true } : FileTask),
        { input := "a.c", output := some "no/a.c" }],
      let after := (marking registry).translateFile noteTree task
      after.tree = noteTree ∧ (marking registry).writtenEdits noteTree task = [] ∧
        after.workflow.history.entries = [⟨0, "// b", "// [en] b"⟩] ∧
        after.workflow.history ≠ (marking registry).history.addAll
          ((marking registry).writtenEdits noteTree task) ∧
        (after.workflow.undo ["// b"]).1.toOption = some (some ⟨0, "// b", "// [en] b"⟩))
    (by decide +kernel)
  exact ⟨registry, hbuiltin, of_decide_eq_true hcheck⟩

end Workflow

end Marginalia
