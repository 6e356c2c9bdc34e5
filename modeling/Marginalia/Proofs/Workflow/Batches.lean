import Marginalia.Proofs.Workflow.Accounting
import Mathlib.Data.List.Induction

/-! # Documents and batches in step

A document is translated comment by comment into edits and failures, a batch text by text into
results, in which a text that failed stands in for its translation. Over the bodies of the same
comments the two loops ask, pause and stop alike, whatever the translators answer and whenever the
session is cancelled: in a call, in a pause, or by somebody else between two comments.
-/

namespace Marginalia

variable {σ : Type}

namespace Session

/-- What a batch has for a text: its translation, for which the text stands in when it failed. -/
def resultOf (options : Options) (text : String) : Except Failure Translation → Translation
  | .ok translation => translation
  | .error _ => options.passthrough text

/-- A batch whose first texts were handled. -/
structure Batch (σ : Type) where
  results : List Translation := []
  pacer : Pacer := { }
  session : Session σ

namespace Batch

/-- Takes in the outcome for a text. -/
def record (batch : Batch σ) (options : Options) (text : String)
    (outcome : Except Failure Translation) : Batch σ :=
  { batch with results := batch.results ++ [resultOf options text outcome] }

/-- The batch with the pacer and the session as they are after a request. -/
def resume (batch : Batch σ) (after : Pacer × Session σ) : Batch σ :=
  { batch with pacer := after.1, session := after.2 }

/-- Handles the texts one after the other, so many of the batch being done already, until the
cancellation is seen. Before which texts somebody else cancels the session is said by their
number in the batch. -/
def run (cancels : Nat → Bool) (options : Options) (done : Nat) (batch : Batch σ) :
    List String → Batch σ
  | [] => batch
  | text :: texts =>
    match batch.session.translateNext (cancels done) batch.pacer (options.request text) with
    | (none, after) => batch.resume after
    | (some outcome, after) =>
      run cancels options (done + 1) ((batch.resume after).record options text outcome) texts

/-- The batch after one more text, which was handled or left out. -/
def advance (batch : Batch σ) (options : Options) (text : String) :
    Option (Except Failure Translation) × Pacer × Session σ → Batch σ
  | (none, after) => batch.resume after
  | (some outcome, after) => (batch.resume after).record options text outcome

end Batch

/-- Translates the texts of a batch one by one. -/
def translateBatchStepwise (session : Session σ) (cancels : Nat → Bool) (options : Options)
    (texts : List String) : Batch σ :=
  Batch.run cancels options 0 { session } texts

/-- What the text at a place of a batch comes to, with the texts before it handled. -/
def outcomeAt (session : Session σ) (cancels : Nat → Bool) (options : Options)
    (texts : List String) (place : Nat) : Option (Except Failure Translation) :=
  let before := session.translateBatchStepwise cancels options (texts.take place)
  texts[place]?.bind fun text =>
    (before.session.translateNext (cancels place) before.pacer (options.request text)).1

/-! ## One more text -/

variable {session : Session σ} {cancels : Nat → Bool} {options : Options} {texts : List String}
  {text : String}

/-- A batch that stopped stays as it is, so one more text is one more step. -/
theorem Batch.run_concat (batch : Batch σ) (done : Nat) (texts : List String) (text : String) :
    batch.run cancels options done (texts ++ [text]) =
      let before := batch.run cancels options done texts
      before.advance options text (before.session.translateNext (cancels (done + texts.length))
        before.pacer (options.request text)) := by
  induction texts generalizing batch done with
  | nil =>
      simp only [List.nil_append, run, List.length_nil, Nat.add_zero]
      rcases batch.session.translateNext (cancels done) batch.pacer (options.request text) with
        ⟨_ | outcome, after⟩ <;> rfl
  | cons first texts ih =>
      simp only [List.cons_append, run, List.length_cons]
      rcases hnext : batch.session.translateNext (cancels done) batch.pacer
        (options.request first) with ⟨_ | outcome, after⟩
      · simp only [resume, advance,
          translateNext_of_cancelled _ (cancelled_of_translateNext hnext)]
      · simp only [ih, Nat.add_assoc, Nat.add_comm 1]

theorem Batch.run_never (batch : Batch σ) (done : Nat) (texts : List String) :
    batch.run (fun _ => false) options done texts =
      let run := batch.session.runFrom batch.pacer (texts.map options.request)
      { results := batch.results ++ orPassthrough options texts run.outcomes
        pacer := run.pacer
        session := run.session } := by
  induction texts generalizing batch done with
  | nil => simp [run, runFrom, orPassthrough]
  | cons text texts ih =>
      simp only [run, translateNext_false, List.map_cons]
      rcases hpaced : batch.session.translatePaced batch.pacer (options.request text) with
        ⟨_ | outcome, after⟩
      · simp [runFrom_cons_of_none hpaced, resume, orPassthrough]
      · rw [runFrom_cons_of_some hpaced]
        cases outcome <;> simp [ih, record, resume, resultOf, orPassthrough]

theorem translateBatchStepwise_never (session : Session σ) (options : Options)
    (texts : List String) :
    let batch := session.translateBatchStepwise (fun _ => false) options texts
    session.translateBatch options texts = (batch.results, batch.session) := by
  simp only [translateBatchStepwise, Batch.run_never, List.nil_append]
  rfl

theorem translateBatchStepwise_concat :
    session.translateBatchStepwise cancels options (texts ++ [text]) =
      let before := session.translateBatchStepwise cancels options texts
      before.advance options text (before.session.translateNext (cancels texts.length)
        before.pacer (options.request text)) := by
  simp only [translateBatchStepwise, Batch.run_concat, Nat.zero_add]

theorem outcomeAt_append {place : Nat} (more : List String) (h : place < texts.length) :
    session.outcomeAt cancels options (texts ++ more) place =
      session.outcomeAt cancels options texts place := by
  simp only [outcomeAt, List.take_append_of_le_length (Nat.le_of_lt h),
    List.getElem?_append_left h]

theorem outcomeAt_concat {count : Nat} (h : texts.length = count) :
    session.outcomeAt cancels options (texts ++ [text]) count =
      let before := session.translateBatchStepwise cancels options texts
      (before.session.translateNext (cancels count) before.pacer (options.request text)).1 := by
  subst h
  simp [outcomeAt]

end Session

namespace Workflow

/-! ## One more comment -/

variable {cancels : Nat → Bool} {lines : List String} {comments : List (Nat × Comment)}
  {comment : Comment} {line : Nat} {outcome : Except Failure Translation}
  {workflow : Workflow σ} {passage : Passage σ} {batch : Session.Batch σ}

namespace Passage

/-- The passage after one more comment, which was handled or left out. -/
def advance (passage : Passage σ) (lines : List String) (done : Nat) (comment : Nat × Comment) :
    Option (Except Failure Translation) × Pacer × Session σ → Passage σ
  | (none, after) => passage.stop after
  | (some outcome, after) => (passage.resume after).record lines done comment outcome

theorem runAmid_concat (passage : Passage σ) (done : Nat) (comments : List (Nat × Comment))
    (comment : Nat × Comment) :
    passage.runAmid cancels lines done (comments ++ [comment]) =
      let before := passage.runAmid cancels lines done comments
      before.advance lines (done + comments.length) comment
        (before.workflow.session.translateNext (cancels (done + comments.length)) before.pacer
          (before.workflow.options.request comment.2.body)) := by
  induction comments generalizing passage done with
  | nil =>
      simp only [List.nil_append, runAmid, List.length_nil, Nat.add_zero]
      rcases passage.workflow.session.translateNext (cancels done) passage.pacer
        (passage.workflow.options.request comment.2.body) with ⟨_ | outcome, after⟩ <;> rfl
  | cons first comments ih =>
      simp only [List.cons_append, runAmid, List.length_cons]
      rcases hnext : passage.workflow.session.translateNext (cancels done) passage.pacer
        (passage.workflow.options.request first.2.body) with ⟨_ | outcome, after⟩
      · simp only [stop, resume, Session.translateNext_of_cancelled _
          (Session.cancelled_of_translateNext hnext), advance]
      · simp only [ih, Nat.add_assoc, Nat.add_comm 1]

end Passage

/-! ## In step -/

/-- What a report and the results of a batch have for one comment: with a translation the result
is that translation, and the report has exactly one edit for the line, which puts the result into
the comment; with a failure the result is the comment's own text, and there is no edit. -/
def Agree (report : Report) (line : Nat) (text : String) (comment : Comment) (options : Options)
    (result : Translation) : Except Failure Translation → Prop
  | .ok translation =>
    result = translation ∧ report.editsOn line = [⟨line, text, comment.withBody result.text⟩]
  | .error _ => result = options.passthrough comment.body ∧ report.editsOn line = []

/-- Whether the translation of a document and that of a batch of the bodies of its comments, both
begun by one workflow, are in step. -/
structure InStep (workflow : Workflow σ) (cancels : Nat → Bool) (lines : List String)
    (comments : List (Nat × Comment)) (passage : Passage σ) (batch : Session.Batch σ) :
    Prop where
  /-- The translators got the same requests in the same order and with the same pauses, and the
  cache is the same. -/
  session_eq : passage.workflow.session = batch.session
  pacer_eq : passage.pacer = batch.pacer
  options_eq : passage.workflow.options = workflow.options
  handled_eq : passage.report.translated + passage.report.failed = batch.results.length
  handled_le : batch.results.length ≤ comments.length
  cancelled_iff : passage.report.cancelled = true ↔ batch.results.length < comments.length
  complete : batch.session.cancelled = false → batch.results.length = comments.length
  agree : ∀ place line comment result, comments[place]? = some (line, comment) →
    batch.results[place]? = some result →
    ∃ outcome, workflow.session.outcomeAt cancels workflow.options
        (comments.map fun comment => comment.2.body) place = some outcome ∧
      Agree passage.report line (lines[line]?.getD "") comment workflow.options result outcome
  edits_found : ∀ edit ∈ passage.report.edits,
    edit.line ∈ (comments.take batch.results.length).map Prod.fst

theorem Passage.editsOn_record_ok (passage : Passage σ) (done : Nat) (translation : Translation)
    (earlier : Nat) :
    (passage.record lines done (line, comment) (.ok translation)).report.editsOn earlier =
      passage.report.editsOn earlier ++ if line = earlier then
        [⟨line, lines[line]?.getD "", comment.withBody translation.text⟩] else [] := by
  by_cases hline : line = earlier <;> simp [Passage.record, Report.editsOn, hline]

theorem Agree.record {earlier : Comment} {text : String} {place : Nat} {result : Translation}
    {options : Options} {before : Except Failure Translation} (done : Nat) (hline : place ≠ line)
    (h : Agree passage.report place text earlier options result before) :
    Agree (passage.record lines done (line, comment) outcome).report place text earlier options
      result before := by
  have hsame : (passage.record lines done (line, comment) outcome).report.editsOn place =
      passage.report.editsOn place := by
    cases outcome with
    | ok translation => simp [Passage.editsOn_record_ok, hline.symm]
    | error failure => rfl
  cases before <;> simpa only [Agree, hsame] using h

/-- The loops that are in step and both see the cancellation before one more comment end so. -/
theorem InStep.stop (h : InStep workflow cancels lines comments passage batch)
    {after : Pacer × Session σ} (hcancelled : after.2.cancelled = true) :
    InStep workflow cancels lines (comments ++ [(line, comment)]) (passage.stop after)
      (batch.resume after) := by
  have hle : batch.results.length ≤ comments.length := h.handled_le
  constructor
  case session_eq => rfl
  case pacer_eq => rfl
  case options_eq => exact h.options_eq
  case handled_eq => exact h.handled_eq
  case handled_le =>
    rw [List.length_append]
    exact Nat.le_trans hle (Nat.le_add_right ..)
  case cancelled_iff =>
    rw [List.length_append]
    exact iff_of_true rfl (Nat.lt_succ_of_le hle)
  case complete =>
    intro hnot
    rw [Session.Batch.resume, hcancelled] at hnot
    cases hnot
  case agree =>
    intro place earlier text result hcomment hresult
    have hplace : place < comments.length :=
      Nat.lt_of_lt_of_le (List.getElem?_eq_some_iff.mp hresult).1 hle
    rw [List.getElem?_append_left hplace] at hcomment
    rw [List.map_append, Session.outcomeAt_append _ (by simpa using hplace)]
    exact h.agree place earlier text result hcomment hresult
  case edits_found =>
    intro edit hmem
    rw [Session.Batch.resume, List.take_append_of_le_length hle]
    exact h.edits_found edit hmem

theorem InStep.editsOn_eq_nil (h : InStep workflow cancels lines comments passage batch)
    (hbehind : ∀ earlier ∈ comments, earlier.1 < line) : passage.report.editsOn line = [] := by
  refine List.filter_eq_nil_iff.mpr fun edit hmem hline => ?_
  obtain ⟨earlier, hearlier, heq⟩ := List.mem_map.mp (h.edits_found edit hmem)
  have hlt := hbehind earlier (List.mem_of_mem_take hearlier)
  rw [heq, beq_iff_eq.mp hline] at hlt
  exact Nat.lt_irrefl _ hlt

theorem Passage.handled_record (passage : Passage σ) (done : Nat) :
    (passage.record lines done (line, comment) outcome).report.translated +
        (passage.record lines done (line, comment) outcome).report.failed =
      passage.report.translated + passage.report.failed + 1 := by
  cases outcome with
  | ok translation =>
      simp only [record, Report.translated, List.length_append, List.length_singleton]
      omega
  | error failure => simp only [record, Report.translated, Nat.add_assoc]

/-- The loops that are in step and both get an outcome for one more comment stay in step. -/
theorem InStep.record (h : InStep workflow cancels lines comments passage batch)
    {after : Pacer × Session σ} (hfull : batch.results.length = comments.length)
    (hbehind : ∀ earlier ∈ comments, earlier.1 < line)
    (houtcome : workflow.session.outcomeAt cancels workflow.options
      ((comments ++ [(line, comment)]).map fun comment => comment.2.body) comments.length =
        some outcome) :
    InStep workflow cancels lines (comments ++ [(line, comment)])
      ((passage.resume after).record lines comments.length (line, comment) outcome)
      ((batch.resume after).record workflow.options comment.body outcome) := by
  have hnone : passage.report.editsOn line = [] := h.editsOn_eq_nil hbehind
  have hlength : ((batch.resume after).record workflow.options comment.body
      outcome).results.length = (comments ++ [(line, comment)]).length := by
    simp [Session.Batch.record, Session.Batch.resume, hfull]
  constructor
  case session_eq => cases outcome <;> rfl
  case pacer_eq => cases outcome <;> rfl
  case options_eq => cases outcome <;> exact h.options_eq
  case handled_eq =>
    rw [Passage.handled_record, hlength, List.length_append, List.length_singleton, ← hfull,
      ← h.handled_eq]
    rfl
  case handled_le => exact Nat.le_of_eq hlength
  case cancelled_iff =>
    have hnot : passage.report.cancelled = false := by
      simpa [hfull] using h.cancelled_iff
    rw [hlength]
    cases outcome <;> simp [Passage.record, Passage.resume, hnot]
  case complete => exact fun _ => hlength
  case agree =>
    intro place earlier text result hcomment hresult
    rw [Session.Batch.record, Session.Batch.resume] at hresult
    rcases Nat.lt_or_ge place comments.length with hplace | hplace
    · -- An earlier comment has no share in the new edit, which is on another line.
      rw [List.getElem?_append_left hplace] at hcomment
      rw [List.getElem?_append_left (hfull ▸ hplace)] at hresult
      obtain ⟨before, hbefore, hagree⟩ := h.agree place earlier text result hcomment hresult
      have hne : earlier ≠ line := Nat.ne_of_lt (hbehind _ (List.mem_of_getElem? hcomment))
      rw [List.map_append, Session.outcomeAt_append _ (by simpa using hplace)]
      exact ⟨before, hbefore, hagree.record comments.length hne⟩
    · obtain rfl : place = comments.length := by
        have hlt := (List.getElem?_eq_some_iff.mp hcomment).1
        rw [List.length_append, List.length_singleton] at hlt
        omega
      rw [List.getElem?_concat_length] at hcomment
      rw [← hfull, List.getElem?_concat_length] at hresult
      cases hcomment
      cases hresult
      refine ⟨outcome, houtcome, ?_⟩
      cases outcome with
      | ok translation =>
          refine ⟨rfl, ?_⟩
          rw [Passage.editsOn_record_ok, if_pos rfl]
          exact congrArg (· ++ _) hnone
      | error failure => exact ⟨rfl, hnone⟩
  case edits_found =>
    rw [hlength, List.take_length, List.map_append]
    intro edit hmem
    cases outcome with
    | ok translation =>
        rcases List.mem_append.mp hmem with hmem | hmem
        · obtain ⟨earlier, hearlier, heq⟩ := List.mem_map.mp (h.edits_found edit hmem)
          rw [← heq]
          exact List.mem_append_left _ (List.mem_map_of_mem (List.mem_of_mem_take hearlier))
        · obtain rfl := List.mem_singleton.mp hmem
          simp
    | error failure =>
        obtain ⟨earlier, hearlier, heq⟩ := List.mem_map.mp (h.edits_found edit hmem)
        rw [← heq]
        exact List.mem_append_left _ (List.mem_map_of_mem (List.mem_of_mem_take hearlier))

/-- The step: loops in step stay so with one more comment, which stands behind the others, and
its body. -/
theorem InStep.advance (h : InStep workflow cancels lines comments passage batch)
    {next : Option (Except Failure Translation) × Pacer × Session σ}
    (hnext : batch.session.translateNext (cancels comments.length) batch.pacer
      (workflow.options.request comment.body) = next)
    (houtcome : workflow.session.outcomeAt cancels workflow.options
      ((comments ++ [(line, comment)]).map fun comment => comment.2.body) comments.length = next.1)
    (hbehind : ∀ earlier ∈ comments, earlier.1 < line) :
    InStep workflow cancels lines (comments ++ [(line, comment)])
      (passage.advance lines comments.length (line, comment) next)
      (batch.advance workflow.options comment.body next) := by
  rcases next with ⟨_ | outcome, after⟩
  · exact h.stop (Session.cancelled_of_translateNext hnext)
  · have hfull := h.complete (Session.cancelled_eq_false_of_translateNext hnext)
    exact h.record hfull hbehind houtcome

/-- The run: the loops over the comments of a document and over their bodies are in step. -/
theorem inStep_runAmid (workflow : Workflow σ) (found : Nat)
    (h : comments.Pairwise fun first second => first.1 < second.1) :
    InStep workflow cancels lines comments
      (Passage.runAmid cancels lines 0 { report := { commentsFound := found }, workflow } comments)
      (workflow.session.translateBatchStepwise cancels workflow.options
        (comments.map fun comment => comment.2.body)) := by
  induction comments using List.reverseRecOn with
  | nil =>
      constructor <;> simp [Passage.runAmid, Session.translateBatchStepwise, Session.Batch.run,
        Report.translated]
  | append_singleton comments comment ih =>
      obtain ⟨line, comment⟩ := comment
      obtain ⟨hbefore, -, hbehind⟩ := List.pairwise_append.mp h
      have hlines : ∀ earlier ∈ comments, earlier.1 < line := fun earlier hearlier =>
        hbehind earlier hearlier (line, comment) (List.mem_singleton_self _)
      have hstep := ih hbefore
      rw [Passage.runAmid_concat, List.map_append, List.map_singleton,
        Session.translateBatchStepwise_concat, List.length_map]
      simp only [hstep.session_eq, hstep.pacer_eq, hstep.options_eq, Nat.zero_add]
      refine hstep.advance rfl ?_ hlines
      rw [List.map_append, List.map_singleton]
      exact Session.outcomeAt_concat (List.length_map _)

/-- A document and a batch of the bodies of its comments, both begun by one workflow, are in step:
they make the same requests with the same pauses, leave the same cache and handle the same number
of comments, each of which has the result of the batch put into its line, or no edit and the
comment's own text for a result. So it is with `translateDocument` and `translateBatch`, which are
the loops that nobody else cancels, and so it is whenever somebody else cancels them. -/
theorem inStep_translateDocument (workflow : Workflow σ) (lines : List String)
    (language : String) :
    let comments := workflow.registry.comments lines language
    let texts := comments.map fun comment => comment.2.body
    let passage cancels := workflow.translateAmid cancels lines language
    let batch cancels :=
      workflow.session.translateBatchStepwise cancels workflow.options texts
    workflow.translateDocument lines language =
        ((passage fun _ => false).report, (passage fun _ => false).workflow) ∧
      workflow.session.translateBatch workflow.options texts =
        ((batch fun _ => false).results, (batch fun _ => false).session) ∧
      ∀ cancels, InStep workflow cancels lines comments (passage cancels) (batch cancels) := by
  intro comments texts passage batch
  refine ⟨?_, ?_, fun cancels => inStep_runAmid workflow comments.length
    Registry.pairwise_comments⟩
  · have hpassage : (passage fun _ => false) = _ := translateAmid_never workflow lines language
    rw [hpassage]
  · exact workflow.session.translateBatchStepwise_never workflow.options texts

-- The second text fails and stands in for itself in the batch, where the document has no edit; the
-- third one comes from the cache, and the fourth one is left out when somebody cancels before it.
example : Registry.builtin.toOption.map (fun registry =>
    let session : Session Unit :=
      { translators := [(.google, fun request state =>
          ⟨if request.text = "b" then .error (.setting (.unregistered .google))
            else .ok ⟨request.text ++ "!", none, "en"⟩, false, state⟩)]
        pause := fun state => (false, state)
        delay := 1
        cache := { capacity := 5 }
        state := () }
    let workflow : Workflow Unit := ⟨registry, session, ⟨5, []⟩, { }⟩
    let passage := workflow.translateAmid (· == 3) ["// a", "// b", "// a", "// c"] "c"
    let batch := session.translateBatchStepwise (· == 3) { } ["a", "b", "a", "c"]
    (passage.report.edits.map Edit.after, batch.results.map Translation.text,
      batch.session.events.length)) =
      some (["// a!", "// a!"], ["a!", "b", "a!"], 3) := by
  decide +kernel

end Workflow

end Marginalia
