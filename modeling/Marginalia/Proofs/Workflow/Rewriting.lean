import Marginalia.Proofs.Comment.Cover
import Marginalia.Proofs.Document.Restore
import Marginalia.Proofs.FileTree
import Marginalia.Proofs.Workflow.Report

/-! # What the translation of a file writes

A file is read, its document is translated, and the edited document is written when there are
edits. The file that was written differs from the file that was read in the edited lines only,
as far as documents allow for it.
-/

namespace Marginalia.Workflow

open Document (RewritesOnly Restorable endedLines dropMark)

variable {σ : Type} {workflow : Workflow σ} {tree : FileTree} {task : FileTask}
  {report : FileReport} {content : String}

theorem readText_of_openTask {language : String}
    (h : workflow.openTask tree task = .ok (content, language)) :
    tree.readText task.input = .ok content := by
  unfold openTask at h
  change (if (!tree.pathExists task.input) = true then _ else _) = Except.ok _ at h
  split at h
  next => cases h
  next =>
    cases hlanguage : workflow.languageFor task.input task.language with
    | error failure =>
        rw [hlanguage] at h
        cases h
    | ok found =>
        rw [hlanguage] at h
        cases hread : tree.readText task.input with
        | error fault =>
            simp only [hread] at h
            cases h
        | ok text =>
            simp only [hread] at h
            cases h
            rfl

/-- A translation that succeeds reports on the document of its input, and the tree is as it
was or has the edited document at the target. -/
theorem translateFile_cases (hread : tree.readText task.input = .ok content)
    (hresult : (workflow.translateFile tree task).result = .ok report) :
    ∃ language, report.translation =
        (workflow.translateDocument (Document.parse content).lines language).1 ∧
      ((task.dryRun = true ∨ report.translation.edits = []) ∧
          (workflow.translateFile tree task).tree = tree ∨
        report.translation.edits ≠ [] ∧
          tree.writeText (task.output.getD task.input)
            { Document.parse content with
              lines := Edit.applyAll report.translation.edits
                (Document.parse content).lines }.render =
            .ok (workflow.translateFile tree task).tree) := by
  unfold translateFile at *
  cases hopen : workflow.openTask tree task with
  | error failure =>
      rw [hopen] at hresult
      cases hresult
  | ok opened =>
      obtain ⟨text, language⟩ := opened
      have htext := readText_of_openTask hopen
      rw [hread] at htext
      cases htext
      rw [hopen] at hresult
      refine ⟨language, ?_⟩
      simp only at hresult ⊢
      split at hresult
      next hskip =>
        cases hresult
        rw [if_pos hskip]
        rw [Bool.or_eq_true, List.isEmpty_iff] at hskip
        exact ⟨rfl, Or.inl ⟨hskip, rfl⟩⟩
      next hedits =>
        rw [if_neg hedits]
        rw [Bool.or_eq_true, List.isEmpty_iff, not_or] at hedits
        split at hresult
        next after hwritten =>
          cases hresult
          exact ⟨rfl, Or.inr ⟨hedits.2, by rw [hwritten]⟩⟩
        next => cases hresult

/-- A translation that is no dry run leaves at the target the text that was read with nothing
but the edited lines changed exactly when there are edits and the text and the edits allow for
it, or there are none and the target has the text already. Then every line that is not edited is
where it was, with its text and its ending. -/
theorem rewritesOnly_translateFile_iff (hdry : task.dryRun = false)
    (hread : tree.readText task.input = .ok content)
    (hresult : (workflow.translateFile tree task).result = .ok report) :
    ((∃ written, (workflow.translateFile tree task).tree.readText
        (task.output.getD task.input) = .ok written ∧
      RewritesOnly content report.translation.edits written) ↔
      (report.translation.edits = [] → tree.readText (task.output.getD task.input) = .ok content) ∧
      (report.translation.edits ≠ [] → Restorable content report.translation.edits)) ∧
    ∀ written, (workflow.translateFile tree task).tree.readText
        (task.output.getD task.input) = .ok written →
      RewritesOnly content report.translation.edits written →
      ∀ index, (∀ edit ∈ report.translation.edits, edit.line ≠ index) →
        (endedLines (dropMark written.toList))[index]? =
          (endedLines (dropMark content.toList))[index]? := by
  refine ⟨?_, fun _ _ hrewrites _ => hrewrites.getElem?_endedLines⟩
  obtain ⟨language, htranslation, htree⟩ := translateFile_cases hread hresult
  rcases htree with ⟨hskip, htree⟩ | ⟨hedits, hwritten⟩
  · have hnil : report.translation.edits = [] := by
      rcases hskip with hskip | hnil
      · rw [hdry] at hskip
        cases hskip
      · exact hnil
    simp [hnil, htree, Document.rewritesOnly_nil_iff]
  · have hlines : report.translation.edits.Pairwise fun first second =>
        first.line ≠ second.line := by
      rw [htranslation]
      exact (workflow.pairwise_translateDocument _ language).imp Nat.ne_of_lt
    have hlt : ∀ edit ∈ report.translation.edits,
        edit.line < (Document.parse content).lines.length := by
      intro edit hmem
      rw [htranslation] at hmem
      have hbefore := workflow.before_of_mem_translateDocument _ language hmem
      exact (List.getElem?_eq_some_iff.mp hbefore).1
    have hfound := FileTree.readText_of_writeText hwritten
    rw [← Document.rewritesOnly_render_iff hlines hlt, hfound]
    simp [hedits]

/-- What becomes of a directory with one file when its comments are marked as English. -/
def markEnglish (registry : Registry) (content : String) (output : Option String) :
    Outcome Unit FileReport :=
  let workflow : Workflow Unit := ⟨registry, .answering ("[en] " ++ ·), ⟨50, []⟩, { }⟩
  workflow.translateFile ⟨[(["a.c"], .text content)], []⟩
    { input := "a.c", output, language := some "c" }

theorem eq_ok_of_toOption {ε α : Type} {result : Except ε α} {value : α}
    (h : result.toOption = some value) : result = .ok value := by
  cases result with
  | error failure => cases h
  | ok other =>
      cases h
      rfl

/-- A file with a byte order mark and long endings, written to another file. The line of code is
the same there. -/
theorem rewritesOnly_translateFile_iff_crlf :
    ∃ registry report written, Registry.builtin = .ok registry ∧
      (markEnglish registry "\ufeff// b\r\nint c;\r\n" (some "d.c")).result = .ok report ∧
      report.translation.edits = [⟨0, "// b", "// [en] b"⟩] ∧
      (markEnglish registry "\ufeff// b\r\nint c;\r\n" (some "d.c")).tree.readText "d.c" =
        .ok written ∧
      RewritesOnly "\ufeff// b\r\nint c;\r\n" report.translation.edits written ∧
      (endedLines (dropMark written.toList))[1]? = some ⟨"int c;".toList, some .crlf⟩ := by
  obtain ⟨registry, hbuiltin, hrun⟩ := Registry.exists_builtin
    (fun registry =>
      (markEnglish registry "\ufeff// b\r\nint c;\r\n" (some "d.c")).result.toOption =
        some ⟨"a.c", "c", { edits := [⟨0, "// b", "// [en] b"⟩], commentsFound := 1 }⟩)
    (by decide +kernel)
  have hresult := eq_ok_of_toOption (of_decide_eq_true hrun)
  have hrestorable : Restorable "\ufeff// b\r\nint c;\r\n" [⟨0, "// b", "// [en] b"⟩] :=
    ⟨⟨.crlf, by decide⟩, by decide, by decide, by decide⟩
  have hread : FileTree.readText ⟨[(["a.c"], .text "\ufeff// b\r\nint c;\r\n")], []⟩ "a.c" =
      .ok "\ufeff// b\r\nint c;\r\n" := by decide
  obtain ⟨hiff, hlines⟩ := rewritesOnly_translateFile_iff rfl hread hresult
  obtain ⟨written, hwritten, hrewrites⟩ :=
    hiff.mpr ⟨fun hnil => absurd hnil (List.cons_ne_nil _ _), fun _ => hrestorable⟩
  refine ⟨registry, _, written, hbuiltin, hresult, rfl, hwritten, hrewrites, ?_⟩
  rw [hlines written hwritten hrewrites 1 (by simp)]
  decide

/-- In a file whose lines end differently a line that is not edited changes its ending. -/
theorem not_rewritesOnly_translateFile_mixed :
    ∃ registry report written, Registry.builtin = .ok registry ∧
      (markEnglish registry "int a;\n// b\r\n" none).result = .ok report ∧
      (markEnglish registry "int a;\n// b\r\n" none).tree.readText "a.c" = .ok written ∧
      written = "int a;\r\n// [en] b\r\n" ∧
      ¬ RewritesOnly "int a;\n// b\r\n" report.translation.edits written := by
  obtain ⟨registry, hbuiltin, hrun⟩ := Registry.exists_builtin
    (fun registry =>
      (markEnglish registry "int a;\n// b\r\n" none).result.toOption =
        some ⟨"a.c", "c", { edits := [⟨1, "// b", "// [en] b"⟩], commentsFound := 1 }⟩ ∧
      ((markEnglish registry "int a;\n// b\r\n" none).tree.readText "a.c").toOption =
        some "int a;\r\n// [en] b\r\n")
    (by decide +kernel)
  obtain ⟨hresult, hwritten⟩ := of_decide_eq_true hrun
  refine ⟨registry, _, _, hbuiltin, eq_ok_of_toOption hresult, eq_ok_of_toOption hwritten, rfl, ?_⟩
  rintro ⟨hpatch, -, -⟩
  revert hpatch
  decide +kernel

end Marginalia.Workflow
