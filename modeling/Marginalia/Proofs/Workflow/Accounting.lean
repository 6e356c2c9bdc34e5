import Marginalia.Language.Builtin
import Marginalia.Pattern.Parser
import Marginalia.Proofs.Session.Interruption
import Marginalia.Proofs.Workflow.Cancellation

/-! # Every comment is accounted for

A document is translated comment by comment: an outcome is an edit, which is recorded at once, or a
failure, and either way the progress is told how many comments are done. What this comes to is the
report of the whole run, so the report, the history and the progress stay in step however failures,
answers from the cache and the cancellation are mixed, and also when somebody else cancels between
two comments.
-/

namespace Marginalia

/-- The edits of a report for a line. -/
def Report.editsOn (report : Report) (line : Nat) : List Edit :=
  report.edits.filter (·.line == line)

namespace Workflow

variable {σ : Type}

/-- A document whose first comments were handled. -/
structure Passage (σ : Type) where
  report : Report
  workflow : Workflow σ
  pacer : Pacer := { }
  /-- What the progress was told: how many comments are done, and of how many. -/
  told : List (Nat × Nat) := []

namespace Passage

/-- Takes in the outcome for a comment behind so many others. -/
def record (passage : Passage σ) (lines : List String) (done : Nat) (comment : Nat × Comment)
    (outcome : Except Failure Translation) : Passage σ :=
  let told := passage.told ++ [(done + 1, passage.report.commentsFound)]
  match outcome with
  | .ok translation =>
    let edit : Edit :=
      ⟨comment.1, lines[comment.1]?.getD "", comment.2.withBody translation.text⟩
    { passage with
      report := { passage.report with edits := passage.report.edits ++ [edit] }
      workflow := { passage.workflow with history := passage.workflow.history.add edit }
      told }
  | .error _ =>
    { passage with
      report := { passage.report with failed := passage.report.failed + 1 }
      told }

/-- The passage with the pacer and the session as they are after a request. -/
def resume (passage : Passage σ) (after : Pacer × Session σ) : Passage σ :=
  { passage with pacer := after.1, workflow := { passage.workflow with session := after.2 } }

/-- The passage that ends where the cancellation was seen. -/
def stop (passage : Passage σ) (after : Pacer × Session σ) : Passage σ :=
  let stopped := passage.resume after
  { stopped with report := { stopped.report with cancelled := true } }

/-- Handles the comments one after the other, so many of the document being done already, until
the cancellation is seen. Before which comments somebody else cancels the session is said by their
number in the document. -/
def runAmid (cancels : Nat → Bool) (lines : List String) (done : Nat) (passage : Passage σ) :
    List (Nat × Comment) → Passage σ
  | [] => passage
  | comment :: comments =>
    match passage.workflow.session.translateNext (cancels done) passage.pacer
        (passage.workflow.options.request comment.2.body) with
    | (none, after) => passage.stop after
    | (some outcome, after) =>
      runAmid cancels lines (done + 1)
        ((passage.resume after).record lines done comment outcome) comments

end Passage

/-- Translates the comments of a document one by one, while somebody else may cancel the
session. -/
def translateAmid (workflow : Workflow σ) (cancels : Nat → Bool) (lines : List String)
    (language : String) : Passage σ :=
  let comments := workflow.registry.comments lines language
  Passage.runAmid cancels lines 0 { report := { commentsFound := comments.length }, workflow }
    comments

/-- The translation of a document with the comments before a place done. -/
def passageAt (workflow : Workflow σ) (cancels : Nat → Bool) (lines : List String)
    (language : String) (place : Nat) : Passage σ :=
  let comments := workflow.registry.comments lines language
  Passage.runAmid cancels lines 0 { report := { commentsFound := comments.length }, workflow }
    (comments.take place)

/-! ## The steps come to the run -/

variable {lines : List String} {comments : List (Nat × Comment)} {cancels : Nat → Bool}
  {outcomes : List (Except Failure Translation)} {outcome : Except Failure Translation}

/-- The passage to which a run over further comments leads. -/
def Passage.after (passage : Passage σ) (lines : List String) (done : Nat)
    (comments : List (Nat × Comment)) (run : Session.Run σ) : Passage σ :=
  let report := reportOn lines comments run.outcomes
  { report := {
      edits := passage.report.edits ++ report.edits
      commentsFound := passage.report.commentsFound
      failed := passage.report.failed + report.failed
      cancelled := passage.report.cancelled || report.cancelled }
    workflow := { passage.workflow with
      session := run.session
      history := passage.workflow.history.addAll report.edits }
    pacer := run.pacer
    told := passage.told ++ (List.range run.outcomes.length).map fun index =>
      (done + index + 1, passage.report.commentsFound) }

theorem reportOn_cons_ok {comment : Nat × Comment} {translation : Translation} :
    reportOn lines (comment :: comments) (.ok translation :: outcomes) =
      { reportOn lines comments outcomes with
        edits := ⟨comment.1, lines[comment.1]?.getD "", comment.2.withBody translation.text⟩ ::
          (reportOn lines comments outcomes).edits
        commentsFound := comments.length + 1 } := by
  simp [reportOn, editFor]

theorem reportOn_cons_error {comment : Nat × Comment} {failure : Failure} :
    reportOn lines (comment :: comments) (.error failure :: outcomes) =
      { reportOn lines comments outcomes with
        failed := (reportOn lines comments outcomes).failed + 1
        commentsFound := comments.length + 1 } := by
  have hedits : ((comment :: comments).zip (.error failure :: outcomes)).filterMap
      (editFor lines) = (reportOn lines comments outcomes).edits :=
    List.filterMap_cons_none rfl
  have hle : (reportOn lines comments outcomes).edits.length ≤ outcomes.length := length_edits_le
  rw [reportOn, hedits]
  simp only [reportOn, List.length_cons, Nat.add_lt_add_iff_right] at hle ⊢
  rw [Nat.sub_add_comm hle]

/-- One more outcome, taken in before the run or as the first of the run. -/
theorem Passage.record_after (passage : Passage σ) (done : Nat) (comment : Nat × Comment)
    (run : Session.Run σ) :
    (passage.record lines done comment outcome).after lines (done + 1) comments run =
      passage.after lines done (comment :: comments)
        { run with outcomes := outcome :: run.outcomes } := by
  have htold : (List.range (run.outcomes.length + 1)).map (fun index =>
        (done + index + 1, passage.report.commentsFound)) =
      (done + 1, passage.report.commentsFound) :: (List.range run.outcomes.length).map fun index =>
        (done + 1 + index + 1, passage.report.commentsFound) := by
    rw [List.range_succ_eq_map, List.map_cons, List.map_map]
    simp only [Function.comp_def, Nat.add_zero, Nat.succ_eq_add_one, Nat.add_assoc,
      Nat.add_comm 1]
  have hfailed (later : Nat) : passage.report.failed + 1 + later =
      passage.report.failed + (later + 1) := by
    omega
  cases outcome with
  | ok translation =>
      simp only [after, record, reportOn_cons_ok, htold, List.length_cons, History.addAll,
        List.foldl_cons, List.append_assoc, List.singleton_append]
  | error failure =>
      simp only [after, record, reportOn_cons_error, htold, List.length_cons, List.append_assoc,
        List.singleton_append, hfailed]

theorem Passage.runAmid_eq_after (passage : Passage σ) (done : Nat)
    (comments : List (Nat × Comment)) :
    passage.runAmid cancels lines done comments = passage.after lines done comments
      (passage.workflow.session.runAmid cancels done passage.pacer
        (comments.map fun comment => passage.workflow.options.request comment.2.body)) := by
  induction comments generalizing passage done with
  | nil => simp [runAmid, after, reportOn, Session.runAmid, History.addAll]
  | cons comment comments ih =>
      rw [runAmid, List.map_cons]
      rcases hnext : passage.workflow.session.translateNext (cancels done) passage.pacer
        (passage.workflow.options.request comment.2.body) with ⟨_ | outcome, after⟩
      · rw [Session.runAmid_cons_of_none hnext]
        simp [stop, resume, Passage.after, reportOn, History.addAll]
      · rw [Session.runAmid_cons_of_some hnext, ← record_after]
        have hrest := ih ((passage.resume after).record lines done comment outcome) (done + 1)
        cases outcome <;> exact hrest

/-- With the comments before a place done the session and the pacer are those of the run over
their requests. -/
theorem session_passageAt (workflow : Workflow σ) (cancels : Nat → Bool) (lines : List String)
    (language : String) (place : Nat) :
    let passage := workflow.passageAt cancels lines language place
    let run := workflow.session.runAmid cancels 0 { }
      ((workflow.requests lines language).take place)
    passage.workflow.session = run.session ∧ passage.pacer = run.pacer := by
  intro passage run
  have hrun : run = workflow.session.runAmid cancels 0 { }
      (((workflow.registry.comments lines language).take place).map fun comment =>
        workflow.options.request comment.2.body) :=
    congrArg (workflow.session.runAmid cancels 0 { }) List.map_take.symm
  have hpassage : passage = _ := Passage.runAmid_eq_after _ 0 _
  rw [hpassage, hrun]
  exact ⟨rfl, rfl⟩

theorem translateAmid_eq (workflow : Workflow σ) (cancels : Nat → Bool) (lines : List String)
    (language : String) :
    let comments := workflow.registry.comments lines language
    let run := workflow.session.runAmid cancels 0 { } (workflow.requests lines language)
    let report := reportOn lines comments run.outcomes
    workflow.translateAmid cancels lines language =
      { report
        workflow := { workflow with
          session := run.session
          history := workflow.history.addAll report.edits }
        pacer := run.pacer
        told := (List.range run.outcomes.length).map fun done => (done + 1, comments.length) } := by
  intro comments run report
  rw [translateAmid, Passage.runAmid_eq_after]
  simp only [Passage.after, List.nil_append, Nat.zero_add, Bool.false_or]
  rfl

/-- A document that nobody else cancels is translated comment by comment. -/
theorem translateAmid_never (workflow : Workflow σ) (lines : List String) (language : String) :
    workflow.translateAmid (fun _ => false) lines language =
      { report := (workflow.translateDocument lines language).1
        workflow := (workflow.translateDocument lines language).2
        pacer := (workflow.session.run (workflow.requests lines language)).pacer
        told := progress (workflow.translateDocument lines language).1 } := by
  have hhandled : (workflow.translateDocument lines language).1.translated +
      (workflow.translateDocument lines language).1.failed =
        (workflow.session.run (workflow.requests lines language)).outcomes.length :=
    translated_add_failed
  rw [translateAmid_eq, Session.runAmid_never, progress, hhandled]
  rfl

/-! ## One edit or one failure for each comment -/

/-- What a report has for a comment on a line: with a translation exactly one edit, of the line as
it stands and with the translation between the opening and the closing, and with a failure none. -/
def Settles (report : Report) (line : Nat) (text : String) (comment : Comment) :
    Except Failure Translation → Prop
  | .ok translation =>
    report.editsOn line = [⟨line, text, comment.opening ++ translation.text ++ comment.closing⟩]
  | .error _ => report.editsOn line = []

theorem editsOn_of_mem {report : Report} {edit : Edit} (hmem : edit ∈ report.edits)
    (hlines : report.edits.Pairwise fun first second => first.line ≠ second.line) :
    report.editsOn edit.line = [edit] := by
  obtain ⟨before, after, hsplit⟩ := List.append_of_mem hmem
  rw [hsplit, List.pairwise_append, List.pairwise_cons] at hlines
  obtain ⟨-, ⟨hafter, -⟩, hbefore⟩ := hlines
  rw [Report.editsOn, hsplit, List.filter_append, List.filter_cons_of_pos (by simp),
    List.filter_eq_nil_iff.mpr fun other hother => by
      simpa using hbefore other hother edit List.mem_cons_self,
    List.filter_eq_nil_iff.mpr fun other hother => by simpa using (hafter other hother).symm,
    List.nil_append]

variable {place line : Nat} {comment : Comment}

theorem settles_reportOn (h : comments.Pairwise fun first second => first.1 < second.1)
    (hcomment : comments[place]? = some (line, comment))
    (houtcome : outcomes[place]? = some outcome) :
    Settles (reportOn lines comments outcomes) line (lines[line]?.getD "") comment outcome := by
  cases outcome with
  | ok translation =>
      have hmem : ⟨line, lines[line]?.getD "", comment.withBody translation.text⟩ ∈
          (reportOn lines comments outcomes).edits :=
        mem_edits_reportOn_iff.mpr ⟨place, comment, translation, hcomment, houtcome, rfl, rfl⟩
      exact editsOn_of_mem hmem ((pairwise_reportOn h).imp Nat.ne_of_lt)
  | error failure =>
      refine List.filter_eq_nil_iff.mpr fun edit hmem hline => ?_
      obtain ⟨other, comment', translation, hother, hok, -⟩ := mem_edits_reportOn_iff.mp hmem
      rw [beq_iff_eq] at hline
      rw [hline] at hother
      obtain rfl := place_unique h hcomment hother
      rw [houtcome] at hok
      cases hok

theorem editsOn_reportOn_of_le (h : comments.Pairwise fun first second => first.1 < second.1)
    (hcomment : comments[place]? = some (line, comment)) (hle : outcomes.length ≤ place) :
    (reportOn lines comments outcomes).editsOn line = [] := by
  refine List.filter_eq_nil_iff.mpr fun edit hmem hline => ?_
  obtain ⟨other, comment', translation, hother, hok, -⟩ := mem_edits_reportOn_iff.mp hmem
  rw [beq_iff_eq] at hline
  rw [hline] at hother
  obtain rfl := place_unique h hcomment hother
  rw [List.getElem?_eq_none hle] at hok
  cases hok

/-- A failure for each handled comment without an edit. -/
theorem failed_reportOn (h : comments.Pairwise fun first second => first.1 < second.1)
    (hle : outcomes.length ≤ comments.length) :
    (reportOn lines comments outcomes).failed =
      (comments.take outcomes.length).countP fun comment =>
        ((reportOn lines comments outcomes).editsOn comment.1).isEmpty := by
  have hsame : (comments.take outcomes.length).countP (fun comment =>
        ((reportOn lines comments outcomes).editsOn comment.1).isEmpty) =
      (comments.zip outcomes).countP fun entry => !(editFor lines entry).isSome := by
    have htake : comments.take outcomes.length = (comments.zip outcomes).map Prod.fst := by
      apply List.ext_getElem <;> simp [Nat.min_comm]
    rw [htake, List.countP_map]
    apply List.countP_congr
    rintro ⟨⟨line, comment⟩, outcome⟩ hmem
    obtain ⟨place, hplace⟩ := List.mem_iff_getElem?.mp hmem
    obtain ⟨hcomment, houtcome⟩ := List.getElem?_zip_eq_some.mp hplace
    have hsettles : Settles (reportOn lines comments outcomes) line (lines[line]?.getD "")
        comment outcome := settles_reportOn h hcomment houtcome
    cases outcome <;> simp only [Settles] at hsettles <;> simp [hsettles, editFor]
  have hcount := List.length_eq_countP_add_countP (fun entry => (editFor lines entry).isSome)
    (l := comments.zip outcomes)
  rw [hsame]
  simp only [reportOn, List.length_filterMap_eq_countP]
  simp only [List.length_zip, Nat.min_eq_right hle, Bool.not_eq_true, Bool.decide_eq_false]
    at hcount
  omega

/-- Whether a report, the workflow after it and what the progress was told account for every
comment of a document. -/
structure Accounts (workflow : Workflow σ) (cancels : Nat → Bool) (lines : List String)
    (language : String) (report : Report) (after : Workflow σ) (told : List (Nat × Nat)) :
    Prop where
  found_eq : report.commentsFound = (workflow.registry.comments lines language).length
  handled_le : report.translated + report.failed ≤
    (workflow.registry.comments lines language).length
  cancelled_iff : report.cancelled = true ↔ report.translated + report.failed <
    (workflow.registry.comments lines language).length
  told_eq : told = (List.range (report.translated + report.failed)).map fun done =>
    (done + 1, (workflow.registry.comments lines language).length)
  /-- A handled comment is settled by the outcome of its translation, in the session that is
  reached with the comments before it done and in which its turn has come. -/
  settled : ∀ place < report.translated + report.failed, ∀ line comment,
    (workflow.registry.comments lines language)[place]? = some (line, comment) →
    let reached := workflow.passageAt cancels lines language place
    let request := workflow.options.request comment.body
    ∃ text, lines[line]? = some text ∧ Settles report line text comment
      ((reached.workflow.session.atTurn reached.pacer request).translate request).1
  untouched : ∀ place, report.translated + report.failed ≤ place → ∀ line comment,
    (workflow.registry.comments lines language)[place]? = some (line, comment) →
    report.editsOn line = []
  /-- There is no edit but those for comments. -/
  edits_found : ∀ edit ∈ report.edits,
    edit.line ∈ (workflow.registry.comments lines language).map Prod.fst
  failed_eq : report.failed = ((workflow.registry.comments lines language).take
    (report.translated + report.failed)).countP fun comment =>
      (report.editsOn comment.1).isEmpty
  increasing : report.edits.Pairwise fun first second => first.line < second.line
  before_eq : ∀ edit ∈ report.edits, lines[edit.line]? = some edit.before
  /-- The edits are recorded in their order, and nothing else is changed but the session. -/
  after_eq : after = { workflow with
    session := after.session, history := workflow.history.addAll report.edits }

/-- The translation of a document that is cancelled by anybody accounts for every comment. -/
theorem accounts_translateAmid (workflow : Workflow σ) (cancels : Nat → Bool)
    (lines : List String) (language : String) :
    let passage := workflow.translateAmid cancels lines language
    workflow.Accounts cancels lines language passage.report passage.workflow passage.told := by
  intro passage
  let comments := workflow.registry.comments lines language
  let run := workflow.session.runAmid cancels 0 { } (workflow.requests lines language)
  have hpassage : passage = _ := translateAmid_eq workflow cancels lines language
  have hreport : passage.report = reportOn lines comments run.outcomes :=
    congrArg Passage.report hpassage
  have hhandled : passage.report.translated + passage.report.failed = run.outcomes.length :=
    hreport ▸ translated_add_failed
  have hordered : comments.Pairwise fun first second => first.1 < second.1 :=
    Registry.pairwise_comments
  have hle : run.outcomes.length ≤ comments.length :=
    Nat.le_trans (Session.length_runAmid_le ..) (Nat.le_of_eq (List.length_map _))
  constructor
  case found_eq => exact congrArg Report.commentsFound hreport
  case handled_le => exact hhandled ▸ hle
  case cancelled_iff =>
    rw [hhandled, hreport]
    exact decide_eq_true_iff
  case told_eq =>
    rw [hhandled, hpassage]
  case settled =>
    intro place hplace line comment hcomment
    rw [hhandled] at hplace
    obtain ⟨text, htext, -⟩ := Registry.mem_comments.mp (List.mem_of_getElem? hcomment)
    have houtcome := List.getElem?_eq_getElem hplace
    have hrequest : (workflow.requests lines language)[place]? =
        some (workflow.options.request comment.body) := by
      rw [requests, List.getElem?_map, hcomment]
      rfl
    have hturn := Session.translate_atTurn_of_outcome hrequest houtcome
    obtain ⟨hsession, hpacer⟩ := session_passageAt workflow cancels lines language place
    have hsettles : Settles passage.report line (lines[line]?.getD "") comment _ :=
      hreport ▸ settles_reportOn hordered hcomment houtcome
    rw [htext, Option.getD_some, ← hturn, ← hsession, ← hpacer] at hsettles
    exact ⟨text, htext, hsettles⟩
  case untouched =>
    intro place hplace line comment hcomment
    rw [hreport]
    exact editsOn_reportOn_of_le hordered hcomment (hhandled ▸ hplace)
  case edits_found =>
    intro edit hmem
    rw [hreport] at hmem
    obtain ⟨place, comment, _, hcomment, -⟩ := mem_edits_reportOn_iff.mp hmem
    exact List.mem_map_of_mem (List.mem_of_getElem? hcomment)
  case failed_eq =>
    rw [hhandled, hreport]
    exact failed_reportOn hordered hle
  case increasing => exact hreport ▸ pairwise_reportOn hordered
  case before_eq =>
    intro edit hmem
    exact before_of_mem_reportOn (hreport ▸ hmem)
  case after_eq =>
    rw [hpassage]

/-- The report on a document accounts for every comment, whatever the translators and the pauses
do and whenever the session is cancelled: it is what the translation comment by comment comes to,
and so are the history and what the progress is told. So it is with `translateDocument`, which is
the translation that nobody else cancels, and so it is whenever somebody else cancels it. -/
theorem accounts_translateDocument (workflow : Workflow σ) (lines : List String)
    (language : String) :
    let passage cancels := workflow.translateAmid cancels lines language
    let whole := passage fun _ => false
    workflow.translateDocument lines language = (whole.report, whole.workflow) ∧
      progress whole.report = whole.told ∧
      (∀ cancels, workflow.Accounts cancels lines language (passage cancels).report
        (passage cancels).workflow (passage cancels).told) ∧
      ∀ place request,
        let reached := workflow.passageAt (fun _ => false) lines language place
        workflow.session.Evolves (· ∈ workflow.requests lines language)
          (reached.workflow.session.atTurn reached.pacer request) := by
  intro passage whole
  have hwhole : whole = _ := translateAmid_never workflow lines language
  refine ⟨?_, ?_, fun cancels => workflow.accounts_translateAmid cancels lines language, ?_⟩
  · rw [hwhole]
  · rw [hwhole]
  · intro place request reached
    refine Session.Evolves.trans ?_ (Session.evolves_atTurn _ _ reached.pacer request)
    rw [(session_passageAt workflow _ lines language place).1, Session.runAmid_never]
    exact Session.evolves_runFrom _ _ fun request hmem => List.mem_of_mem_take hmem

-- A document whose last comment is translated while the session is cancelled is not cut short.
example : Registry.builtin.toOption.map (fun registry => [1, 2].map fun limit =>
    let workflow : Workflow Nat := ⟨registry, stoppingAt limit, ⟨5, []⟩, { }⟩
    let passage := workflow.translateAmid (fun _ => false) ["// a", "int x;", "/* b */"] "c"
    (passage.report.cancelled, passage.report.edits.map Edit.after, passage.told)) =
      some [(true, ["// a!"], [(1, 2)]), (false, ["// a!", "/* b! */"], [(1, 2), (2, 2)])] := by
  decide +kernel

end Workflow

end Marginalia
