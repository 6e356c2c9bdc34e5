import Marginalia.Proofs.Session.Cancellation
import Marginalia.Proofs.Workflow.Report

/-! # Batches and documents under cancellation

The results of a cancelled batch are the first ones of the batch that nothing cancels, and the
report on a cancelled document is the part of the whole report for the first comments. Both are
runs over requests, and end as runs end.
-/

namespace Marginalia

theorem zip_take_right {α β : Type} (first : List α) (second : List β) (count : Nat) :
    first.zip (second.take count) = (first.zip second).take count := by
  induction first generalizing second count with
  | nil => simp
  | cons a first ih => cases second <;> cases count <;> simp [ih]

theorem Session.orPassthrough_take (options : Options) (texts : List String)
    (outcomes : List (Except Failure Translation)) (count : Nat) :
    orPassthrough options texts (outcomes.take count) =
      (orPassthrough options texts outcomes).take count := by
  rw [orPassthrough, orPassthrough, zip_take_right, List.map_take]

namespace Workflow

variable {σ : Type}

/-- The workflow in which nothing cancels. -/
def undisturbed (workflow : Workflow σ) : Workflow σ :=
  { workflow with session := workflow.session.undisturbed }

/-- The requests for the comments of a document. -/
def requests (workflow : Workflow σ) (lines : List String) (language : String) : List Request :=
  (workflow.registry.comments lines language).map fun (_, comment) =>
    workflow.options.request comment.body

/-- The translation of a document as the part for its first comments, so many of them. -/
structure BeginsDocument (workflow : Workflow σ) (lines : List String) (language : String)
    (count : Nat) : Prop where
  edits_eq : (workflow.translateDocument lines language).1.edits =
    (workflow.undisturbed.translateDocument lines language).1.edits.filter fun edit =>
      edit.line ∈ ((workflow.registry.comments lines language).take count).map Prod.fst
  handled_eq : (workflow.translateDocument lines language).1.translated +
    (workflow.translateDocument lines language).1.failed = count
  handled_whole : (workflow.undisturbed.translateDocument lines language).1.translated +
    (workflow.undisturbed.translateDocument lines language).1.failed =
      (workflow.registry.comments lines language).length
  progress_eq : progress (workflow.translateDocument lines language).1 =
    (progress (workflow.undisturbed.translateDocument lines language).1).take count
  history_eq : (workflow.translateDocument lines language).2.history =
    workflow.history.addAll (workflow.translateDocument lines language).1.edits
  cancelled_eq : (workflow.translateDocument lines language).1.cancelled =
    decide (count < (workflow.registry.comments lines language).length)
  session_eq : (workflow.translateDocument lines language).2.session =
    (workflow.session.run (workflow.requests lines language)).session

variable {workflow : Workflow σ} {lines : List String} {language : String}
  {comments : List (Nat × Comment)} {outcomes : List (Except Failure Translation)} {count : Nat}

/-- The edits for the first comments are the edits of their lines, as the comments stand on
different lines. -/
theorem edits_reportOn_take (h : comments.Pairwise fun first second => first.1 < second.1) :
    (reportOn lines comments (outcomes.take count)).edits =
      (reportOn lines comments outcomes).edits.filter fun edit =>
        edit.line ∈ (comments.take count).map Prod.fst := by
  have hfirst : ∀ edit ∈ ((comments.zip outcomes).take count).filterMap (editFor lines),
      edit.line ∈ (comments.take count).map Prod.fst := by
    intro edit hmem
    obtain ⟨⟨comment, outcome⟩, hzip, hedit⟩ := List.mem_filterMap.mp hmem
    obtain ⟨_, -, rfl⟩ := editFor_eq_some_iff.mp hedit
    rw [List.zip, List.take_zipWith] at hzip
    exact List.mem_map_of_mem (List.of_mem_zip hzip).1
  have hrest : ∀ edit ∈ ((comments.zip outcomes).drop count).filterMap (editFor lines),
      edit.line ∉ (comments.take count).map Prod.fst := by
    intro edit hmem hline
    obtain ⟨⟨comment, outcome⟩, hzip, hedit⟩ := List.mem_filterMap.mp hmem
    obtain ⟨_, -, rfl⟩ := editFor_eq_some_iff.mp hedit
    obtain ⟨earlier, hearlier, hsame⟩ := List.mem_map.mp hline
    rw [List.zip, List.drop_zipWith] at hzip
    rw [← List.take_append_drop count comments, List.pairwise_append] at h
    have hlt := h.2.2 earlier hearlier comment (List.of_mem_zip hzip).1
    exact absurd hsame (Nat.ne_of_lt hlt)
  have hsplit : (reportOn lines comments outcomes).edits =
      ((comments.zip outcomes).take count).filterMap (editFor lines) ++
        ((comments.zip outcomes).drop count).filterMap (editFor lines) := by
    rw [← List.filterMap_append, List.take_append_drop]
    rfl
  rw [hsplit, List.filter_append, List.filter_eq_self.mpr (by simpa using hfirst),
    List.filter_eq_nil_iff.mpr (by simpa using hrest), List.append_nil, ← zip_take_right]
  rfl

theorem length_edits_le : (reportOn lines comments outcomes).edits.length ≤ outcomes.length := by
  apply Nat.le_trans (List.length_filterMap_le _ _)
  rw [List.length_zip]
  exact Nat.min_le_right ..

/-- Each outcome is an edit or a failure. -/
theorem translated_add_failed :
    (reportOn lines comments outcomes).translated + (reportOn lines comments outcomes).failed =
      outcomes.length :=
  Nat.add_sub_cancel' length_edits_le

theorem beginsDocument (workflow : Workflow σ) (lines : List String) (language : String) :
    workflow.BeginsDocument lines language
      (workflow.session.run (workflow.requests lines language)).outcomes.length := by
  have hbegins := workflow.session.begins (workflow.requests lines language)
  have hlength : (workflow.requests lines language).length =
      (workflow.registry.comments lines language).length := List.length_map _
  have hwhole : (workflow.undisturbed.translateDocument lines language).1 =
      reportOn lines (workflow.registry.comments lines language)
        (workflow.session.undisturbed.run (workflow.requests lines language)).outcomes := rfl
  have hhandled : (workflow.translateDocument lines language).1.translated +
      (workflow.translateDocument lines language).1.failed =
        (workflow.session.run (workflow.requests lines language)).outcomes.length :=
    translated_add_failed
  have hall : (workflow.undisturbed.translateDocument lines language).1.translated +
      (workflow.undisturbed.translateDocument lines language).1.failed =
        (workflow.registry.comments lines language).length := by
    rw [hwhole, translated_add_failed, hbegins.length_whole, hlength]
  refine ⟨?_, hhandled, hall, ?_, rfl, rfl, rfl⟩
  · rw [hwhole, ← edits_reportOn_take Registry.pairwise_comments, ← hbegins.outcomes_eq]
    rfl
  · have hfound : (workflow.translateDocument lines language).1.commentsFound =
        (workflow.undisturbed.translateDocument lines language).1.commentsFound := rfl
    rw [progress, progress, hhandled, hall, hfound, ← List.map_take, List.take_range,
      Nat.min_eq_left (hlength ▸ hbegins.count_le)]

/-- Whatever cancels a batch or a document, and whenever: the results are the first ones of the
whole batch, and the report is the part of the whole report for the first comments. -/
theorem begins_undisturbed (workflow : Workflow σ) (options : Options) (texts lines : List String)
    (language : String) :
    (∃ count, workflow.session.Begins (texts.map options.request) count ∧
      workflow.session.translateBatch options texts =
        ((workflow.session.undisturbed.translateBatch options texts).1.take count,
          (workflow.session.run (texts.map options.request)).session)) ∧
    ∃ count, workflow.session.Begins (workflow.requests lines language) count ∧
      workflow.BeginsDocument lines language count := by
  have hbegins := workflow.session.begins (texts.map options.request)
  refine ⟨⟨_, hbegins, ?_⟩, _, workflow.session.begins _, beginsDocument ..⟩
  simp only [Session.translateBatch]
  rw [← Session.orPassthrough_take, ← hbegins.outcomes_eq]

/-- A provider that marks a text, counts its calls and cancels from the given call on. -/
def stoppingAt (limit : Nat) : Session Nat where
  translators := [(.google, fun request count =>
    ⟨.ok ⟨request.text ++ "!", none, request.options.target⟩, limit ≤ count + 1, count + 1⟩)]
  pause := fun count => (false, count)
  delay := 0
  cache := { capacity := 5 }
  state := 0

-- The answer of the second call is kept, and the third text is left out although it is cached.
example : (((stoppingAt 2).translateBatch { } ["a", "b", "A"]).1.map Translation.text,
    ((stoppingAt 3).translateBatch { } ["a", "b", "A"]).1.map Translation.text) =
      (["a!", "b!"], ["a!", "b!", "a!"]) := by
  decide

end Workflow

end Marginalia
