import Marginalia.Proofs.Session.Provenance
import Marginalia.Proofs.Workflow.Report

/-! # Where the results of a workflow come from

The operations of a workflow share one cache. In whatever order they are done, and whatever the
translators do meanwhile, the log accounts for the session, and each operation hands out nothing
but what translators gave.
-/

namespace Marginalia.Workflow

/-- What can be done with a workflow. The files are as they are found at that moment. -/
inductive Operation (σ : Type)
  | translate (request : Request)
  | translateBatch (options : Options) (texts : List String)
  | translateWholeBatch (options : Options) (texts : List String)
  | translateDocument (lines : List String) (language : String)
  | translateSelection (text : String) (line : Nat)
  | preview (line language : String)
  | translateFile (tree : FileTree) (task : FileTask)
  | translateDirectory (tree : FileTree) (directory : String) (dryRun : Bool)
  | setOptions (options : Options)
  | register (provider : Provider) (translator : Translator σ)
  | clearCache
  | undo (lines : List String)
  /-- Changes are added to the undo history, or taken out of it. -/
  | changeHistory (change : History → History)
  /-- Whatever translators depend on changes, and so may the token of the cancellation. -/
  | proceed (state : σ) (cancelled : Bool)

/-- What an operation hands out. -/
inductive Answer
  | nothing
  | outcome (request : Request) (outcome : Except Failure Translation)
  | batch (options : Options) (texts : List String) (translations : List Translation)
  | preview (shown : Option Preview)
  | document (language : String) (report : Report)
  | files (reports : List FileReport)

variable {σ : Type} {workflow later : Workflow σ} {language : String}

/-- Does an operation. -/
def perform (workflow : Workflow σ) : Operation σ → Answer × Workflow σ
  | .translate request =>
    let (outcome, session) := workflow.session.translate request
    (.outcome request outcome, { workflow with session })
  | .translateBatch options texts =>
    let (translations, session) := workflow.session.translateBatch options texts
    (.batch options texts translations, { workflow with session })
  | .translateWholeBatch options texts =>
    let (translations, session) := workflow.session.translateWholeBatch options texts
    (.batch options texts translations, { workflow with session })
  | .translateDocument lines language =>
    let (report, workflow) := workflow.translateDocument lines language
    (.document language report, workflow)
  | .translateSelection text line =>
    let (outcome, after) := workflow.translateSelection text line
    (.outcome (workflow.options.request text) outcome, after)
  | .preview line language =>
    let (shown, workflow) := workflow.preview line language
    (.preview shown, workflow)
  | .translateFile tree task =>
    let outcome := workflow.translateFile tree task
    (.files outcome.result.toOption.toList, outcome.workflow)
  | .translateDirectory tree directory dryRun =>
    let outcome := workflow.translateDirectory tree directory dryRun
    (.files (outcome.result.toOption.getD []), outcome.workflow)
  | .setOptions options => (.nothing, { workflow with options })
  | .register provider translator =>
    (.nothing, { workflow with session := workflow.session.register provider translator })
  | .clearCache => (.nothing, { workflow with session := workflow.session.clearCache })
  | .undo lines => (.nothing, (workflow.undo lines).2.2)
  | .changeHistory change => (.nothing, { workflow with history := change workflow.history })
  | .proceed state cancelled =>
    (.nothing, { workflow with session := { workflow.session with state, cancelled } })

/-- Does operations one after the other. -/
def performAll (workflow : Workflow σ) (operations : List (Operation σ)) : Workflow σ :=
  operations.foldl (fun workflow operation => (workflow.perform operation).2) workflow

/-- Whether an edit puts in place of the comment on its line what a translator gave for it. -/
def ReturnedEdit (workflow : Workflow σ) (language : String) (edit : Edit) : Prop :=
  ∃ comment translation, workflow.registry.extract? edit.before language = some comment ∧
    edit.after = comment.withBody translation.text ∧
    workflow.session.Returned (Cache.key comment.body workflow.options.target) translation

/-- Whether translators gave what is handed out, up to the texts of a batch that stand in for
failures. -/
def Returned (workflow : Workflow σ) : Answer → Prop
  | .nothing => True
  | .outcome request outcome =>
    ∀ translation, outcome = .ok translation → workflow.session.Returned request.key translation
  | .batch options texts translations => workflow.session.ReturnedBatch options texts translations
  | .preview shown => ∀ preview, shown = some preview → workflow.session.Returned
      (Cache.key preview.comment.body workflow.options.target) preview.translation
  | .document language report => ∀ edit ∈ report.edits, workflow.ReturnedEdit language edit
  | .files reports => ∀ report ∈ reports, ∀ edit ∈ report.translation.edits,
      workflow.ReturnedEdit report.language edit

/-! ## Documents -/

/-- Whether a workflow came out of another one by translations alone. -/
structure Continues (workflow later : Workflow σ) : Prop where
  registry_eq : later.registry = workflow.registry
  options_eq : later.options = workflow.options
  evolves : workflow.session.Evolves (fun _ => True) later.session

theorem Continues.refl : workflow.Continues workflow := ⟨rfl, rfl, .refl⟩

theorem Continues.trans {last : Workflow σ} (h : workflow.Continues later)
    (hnext : later.Continues last) : workflow.Continues last :=
  ⟨hnext.registry_eq.trans h.registry_eq, hnext.options_eq.trans h.options_eq,
    h.evolves.trans hnext.evolves⟩

theorem ReturnedEdit.continues {edit : Edit} (h : workflow.ReturnedEdit language edit)
    (hcontinues : workflow.Continues later) : later.ReturnedEdit language edit := by
  obtain ⟨comment, translation, hcomment, hafter, hreturned⟩ := h
  refine ⟨comment, translation, ?_, hafter, ?_⟩
  · rw [hcontinues.registry_eq]
    exact hcomment
  · rw [hcontinues.options_eq]
    exact hreturned.evolves hcontinues.evolves

theorem continues_translateDocument (workflow : Workflow σ) (lines : List String)
    (language : String) :
    workflow.Continues (workflow.translateDocument lines language).2 :=
  ⟨rfl, rfl, Session.evolves_runFrom _ _ fun _ _ => trivial⟩

theorem returnedEdit_translateDocument {lines : List String} (h : workflow.session.Accounted)
    {edit : Edit} (hmem : edit ∈ (workflow.translateDocument lines language).1.edits) :
    (workflow.translateDocument lines language).2.ReturnedEdit language edit := by
  have hbefore := workflow.before_of_mem_translateDocument lines language hmem
  obtain ⟨⟨comment, outcome⟩, hzip, hedit⟩ := List.mem_filterMap.mp hmem
  obtain ⟨translation, rfl, rfl⟩ := editFor_eq_some_iff.mp hedit
  obtain ⟨index, hindex⟩ := List.getElem?_of_mem hzip
  obtain ⟨hcomment, houtcome⟩ := List.getElem?_zip_eq_some.mp hindex
  obtain ⟨request, hrequest, hreturned⟩ := h.returned_of_outcome houtcome
  rw [List.getElem?_map, hcomment] at hrequest
  cases hrequest
  obtain ⟨line, hline, hextract, -⟩ := Registry.mem_comments.mp (List.mem_of_getElem? hcomment)
  refine ⟨comment.2, translation, ?_, rfl, hreturned⟩
  rw [hbefore] at hline
  cases hline
  exact hextract

/-! ## Files -/

variable {tree : FileTree} {task : FileTask} {dryRun : Bool}

/-- The translation of a file fails at once, or it is the translation of a document. -/
theorem translateFile_cases_document (workflow : Workflow σ) (tree : FileTree) (task : FileTask) :
    (∃ failure, workflow.translateFile tree task = ⟨.error failure, tree, workflow⟩) ∨
    ∃ lines language,
      (workflow.translateFile tree task).workflow =
        (workflow.translateDocument lines language).2 ∧
      ∀ report, (workflow.translateFile tree task).result = .ok report →
        report = ⟨task.input, language, (workflow.translateDocument lines language).1⟩ := by
  unfold translateFile
  cases workflow.openTask tree task with
  | error failure => exact Or.inl ⟨failure, rfl⟩
  | ok opened =>
      obtain ⟨content, language⟩ := opened
      refine Or.inr ⟨(Document.parse content).lines, language, ?_⟩
      simp only
      split
      next => exact ⟨rfl, fun _ hresult => (Except.ok.inj hresult).symm⟩
      next =>
        split
        next => exact ⟨rfl, fun _ hresult => (Except.ok.inj hresult).symm⟩
        next => exact ⟨rfl, fun _ hresult => by cases hresult⟩

theorem continues_translateFile (workflow : Workflow σ) (tree : FileTree) (task : FileTask) :
    workflow.Continues (workflow.translateFile tree task).workflow := by
  rcases translateFile_cases_document workflow tree task with
    ⟨_, heq⟩ | ⟨lines, language, hworkflow, -⟩
  · rw [heq]
    exact .refl
  · rw [hworkflow]
    exact continues_translateDocument workflow lines language

theorem returnedEdit_translateFile (h : workflow.session.Accounted) {report : FileReport}
    (hresult : (workflow.translateFile tree task).result = .ok report) :
    ∀ edit ∈ report.translation.edits,
      (workflow.translateFile tree task).workflow.ReturnedEdit report.language edit := by
  intro edit hmem
  rcases translateFile_cases_document workflow tree task with
    ⟨_, heq⟩ | ⟨lines, language, hworkflow, hreport⟩
  · rw [heq] at hresult
    cases hresult
  · rw [hworkflow]
    rw [hreport report hresult] at hmem ⊢
    exact returnedEdit_translateDocument h hmem

theorem continues_translateFiles (paths : List String) :
    workflow.Continues (translateFiles dryRun workflow tree paths).2.2 := by
  induction paths generalizing workflow tree with
  | nil => exact .refl
  | cons path paths ih =>
      unfold translateFiles
      split
      next => exact .refl
      next =>
        have hfirst := continues_translateFile workflow tree { input := path, dryRun }
        simp only
        split
        next => exact hfirst.trans ih
        next => exact hfirst.trans ih

theorem returnedEdit_translateFiles {paths : List String} (h : workflow.session.Accounted) :
    ∀ report ∈ (translateFiles dryRun workflow tree paths).1, ∀ edit ∈ report.translation.edits,
      (translateFiles dryRun workflow tree paths).2.2.ReturnedEdit report.language edit := by
  induction paths generalizing workflow tree with
  | nil => simp [translateFiles]
  | cons path paths ih =>
      unfold translateFiles
      split
      next => simp
      next =>
        have hfirst := continues_translateFile workflow tree { input := path, dryRun }
        have hafter := h.evolves hfirst.evolves
        simp only
        split
        next first hresult =>
          intro report hmem edit hedit
          -- The later files go on in the log, so what was given for the first one still counts.
          rcases List.mem_cons.mp hmem with rfl | hmem
          · exact (returnedEdit_translateFile h hresult edit hedit).continues
              (continues_translateFiles paths)
          · exact ih hafter report hmem edit hedit
        next => exact ih hafter

/-! ## Operations -/

theorem accounted_perform (h : workflow.session.Accounted) (operation : Operation σ) :
    (workflow.perform operation).2.session.Accounted := by
  cases operation with
  | translate request => exact h.translate
  | translateBatch options texts => exact h.evolves (Session.evolves_translateBatch ..)
  | translateWholeBatch options texts => exact h.translateWholeBatch
  | translateDocument lines language =>
      exact h.evolves (continues_translateDocument workflow lines language).evolves
  | translateSelection text line => exact h.translate
  | preview line language =>
      simp only [perform, preview]
      cases workflow.registry.extract? line language with
      | none => exact h
      | some comment => exact h.translate
  | translateFile tree task =>
      exact h.evolves (continues_translateFile workflow tree task).evolves
  | translateDirectory tree directory dryRun =>
      simp only [perform, translateDirectory]
      split
      next => exact h.evolves (continues_translateFiles _).evolves
      next => exact h
  | setOptions options => exact h
  | register provider translator => exact h.register provider translator
  | clearCache => exact h.clearCache
  | undo lines =>
      simp only [perform, undo]
      split
      next => exact h
      next => split <;> exact h
  | changeHistory change => exact h
  | proceed state cancelled => exact h.of_events_eq rfl rfl (Session.keepsAnswers_of_eq rfl)

theorem returned_perform (h : workflow.session.Accounted) (operation : Operation σ) :
    (workflow.perform operation).2.Returned (workflow.perform operation).1 := by
  cases operation with
  | translate request =>
      intro translation houtcome
      exact h.returned_translate houtcome
  | translateBatch options texts => exact h.returnedBatch
  | translateWholeBatch options texts => exact h.returnedBatch_whole
  | translateDocument lines language =>
      intro edit hmem
      exact returnedEdit_translateDocument h hmem
  | translateSelection text line =>
      intro translation houtcome
      exact h.returned_translate houtcome
  | preview line language =>
      simp only [perform, preview]
      cases workflow.registry.extract? line language with
      | none => simp [Returned]
      | some comment =>
          intro preview hshown
          cases houtcome :
              (workflow.session.translate (workflow.options.request comment.body)).1 with
          | error failure => simp [houtcome] at hshown
          | ok translation =>
              simp only [houtcome, Option.some.injEq] at hshown
              subst hshown
              exact h.returned_translate houtcome
  | translateFile tree task =>
      simp only [perform]
      cases hresult : (workflow.translateFile tree task).result with
      | error failure => simp [Returned, Except.toOption]
      | ok report =>
          intro found hmem
          cases List.mem_singleton.mp hmem
          exact returnedEdit_translateFile h hresult
  | translateDirectory tree directory dryRun =>
      simp only [perform, translateDirectory]
      split
      next => exact returnedEdit_translateFiles h
      next => simp [Returned, Except.toOption]
  | setOptions options => trivial
  | register provider translator => trivial
  | clearCache => trivial
  | undo lines => trivial
  | changeHistory change => trivial
  | proceed state cancelled => trivial

theorem accounted_performAll (h : workflow.session.Accounted) (operations : List (Operation σ)) :
    (workflow.performAll operations).session.Accounted := by
  induction operations generalizing workflow with
  | nil => exact h
  | cons operation operations ih => exact ih (accounted_perform h operation)

/-- From an empty cache, whatever was done and is done then: the log accounts for the cache and
for every call, what is in the cache was given by a translator since the cache was last cleared,
and so was what is handed out. -/
theorem returned_of_empty_cache (workflow : Workflow σ)
    (hentries : workflow.session.cache.entries = [])
    (hevents : workflow.session.events = []) (operations : List (Operation σ))
    (operation : Operation σ) :
    let before := workflow.performAll operations
    let after := (before.perform operation).2
    after.session.Accounted ∧
      (∀ entry ∈ after.session.cache.entries, after.session.Returned entry.1 entry.2) ∧
      after.Returned (before.perform operation).1 := by
  have hbefore := accounted_performAll (Session.Accounted.of_fresh hentries hevents) operations
  have hafter := accounted_perform hbefore operation
  exact ⟨hafter, fun _ hmem => hafter.returned_of_mem hmem, returned_perform hbefore operation⟩

/-- A provider that adds a sign to a text for each request it had before, and fails on the
second one. -/
def adding (sign : Char) : Translator Nat := fun request count => {
  outcome :=
    if count = 1 then .error (.transport .google .noAnswer)
    else .ok ⟨request.text ++ String.ofList (List.replicate count sign), none, "en"⟩
  cancels := false
  state := count + 1 }

/-- A short program with that provider and an empty cache. -/
def exclaiming : Workflow Nat where
  registry := { }
  session := {
    translators := [(.google, adding '!')]
    pause := fun count => (false, count)
    delay := 0
    cache := { capacity := 5 }
    state := 0 }
  history := { capacity := 0 }
  options := { }

/-- The cache is cleared and the provider is replaced between two requests with the same key, so
that the third one is answered by what the new provider gave. -/
theorem returned_of_empty_cache_cleared :
    let before := exclaiming.performAll [.translateBatch { } ["a", "b"], .clearCache,
      .register .google (adding '?'), .translateWholeBatch { } ["a"]]
    let after := (before.perform (.translate ⟨" A", { }⟩)).2
    (before.perform (.translate ⟨" A", { }⟩)).1 =
        .outcome ⟨" A", { }⟩ (.ok ⟨"a??", none, "en"⟩) ∧
      after.session.Accounted ∧ after.session.Returned "a::en" ⟨"a??", none, "en"⟩ := by
  intro before after
  obtain ⟨haccounted, -, hreturned⟩ := returned_of_empty_cache exclaiming rfl rfl
    [.translateBatch { } ["a", "b"], .clearCache, .register .google (adding '?'),
      .translateWholeBatch { } ["a"]] (.translate ⟨" A", { }⟩)
  have hanswer : (before.perform (.translate ⟨" A", { }⟩)).1 =
      .outcome ⟨" A", { }⟩ (.ok ⟨"a??", none, "en"⟩) := by
    rfl
  rw [hanswer] at hreturned
  have hkey : Request.key ⟨" A", { }⟩ = "a::en" := by decide
  exact ⟨hanswer, haccounted, hkey ▸ hreturned _ rfl⟩

end Marginalia.Workflow
