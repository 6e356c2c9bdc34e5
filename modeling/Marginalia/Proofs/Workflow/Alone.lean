import Marginalia.Proofs.FileTree.Walk
import Marginalia.Proofs.Workflow.Files
import Marginalia.Proofs.Workflow.Transparency

/-! # A file brought to the provider itself

With a provider that answers by the key and a cache that agrees with it, what becomes of a file
depends on the registry, the options and the provider only: the report is the one there is when each
comment is brought to the provider itself, and so is what is written. A translation that is not
cancelled has no other result, whatever was translated before it.
-/

namespace Marginalia.Workflow

variable {σ τ : Type} {workflow : Workflow σ} {reference : Workflow τ}
  {answer : String → Except Failure Translation} {tree : FileTree} {source : String}
  {sources : List String} {location : Location} {content : Content}

/-- Whether a workflow has the registry and the options of a reference, a provider that answers by
the key under these options, and a cache that agrees with the provider. -/
structure Serves (workflow : Workflow σ) (reference : Workflow τ)
    (answer : String → Except Failure Translation) : Prop where
  registry_eq : workflow.registry = reference.registry
  options_eq : workflow.options = reference.options
  answers : workflow.session.Answers reference.options answer
  agrees : workflow.session.cache.Agrees answer

/-! ## One file -/

/-- What becomes of a file whose comments are brought to the provider itself: the report, if the
file can be opened, and what the file then has. -/
def ownFile (workflow : Workflow σ) (answer : String → Except Failure Translation)
    (source : String) : Content → Option FileReport × Content
  | .binary bytes => (none, .binary bytes)
  | .text value =>
    match workflow.registry.languageOf? source with
    | none => (none, .text value)
    | some language =>
      let report := workflow.ownReport answer (Document.parse value).lines language
      (some ⟨source, language, report⟩,
        if report.edits.isEmpty then .text value else .text (rewrittenText value report.edits))

theorem Serves.translateDocument (h : workflow.Serves reference answer) (lines : List String)
    (language : String) :
    (workflow.translateDocument lines language).2.Serves reference answer := by
  obtain ⟨hregistry, hoptions, hanswers, hagrees⟩ := h
  have hasks : ∀ request ∈ workflow.requests lines language,
      request.options = reference.options :=
    List.forall_mem_map.mpr fun _ _ => hoptions
  obtain ⟨hanswers, hagrees⟩ := hanswers.evolves hagrees
    (workflow.session.evolves_runFrom { } hasks)
  exact ⟨hregistry, hoptions, hanswers, hagrees⟩

/-- A session that is not cancelled has translated the whole document. -/
theorem Serves.report_eq (h : workflow.Serves reference answer) {lines : List String}
    {language : String}
    (hcalm : (workflow.translateDocument lines language).2.session.cancelled = false) :
    (workflow.translateDocument lines language).1 =
      reference.ownReport answer lines language := by
  obtain ⟨hregistry, hoptions, hanswers, hagrees⟩ := h
  have hlength : (workflow.session.run (workflow.requests lines language)).outcomes.length =
      (workflow.registry.comments lines language).length :=
    (Session.length_runFrom hcalm).trans (List.length_map _)
  have hwhole : (workflow.translateDocument lines language).1.cancelled = false :=
    decide_eq_false (Nat.not_lt_of_ge (Nat.le_of_eq hlength.symm))
  rw [translateDocument_of_not_cancelled hwhole,
    translateDocument_undisturbed (hoptions ▸ hanswers) hagrees]
  simp only [ownReport, hregistry, hoptions]

theorem Serves.fileReport_eq (h : workflow.Serves reference answer) {value language : String}
    (hcalm :
      (workflow.translateDocument (Document.parse value).lines language).2.session.cancelled =
        false) :
    workflow.fileReport source value language =
      ⟨source, language, reference.ownReport answer (Document.parse value).lines language⟩ :=
  congrArg (FileReport.mk source language) (h.report_eq hcalm)

theorem Serves.translateFile (h : workflow.Serves reference answer) (tree : FileTree)
    (task : FileTask) : (workflow.translateFile tree task).workflow.Serves reference answer := by
  rcases workflow.workflow_translateFile_cases tree task with heq | ⟨lines, language, heq⟩
  · rw [heq]
    exact h
  · rw [heq]
    exact h.translateDocument lines language

theorem openTask_of_fileAt {value language : String} (htree : tree.Proper)
    (hfile : tree.FileAt source location content) :
    workflow.openTask tree { input := source } = .ok (value, language) ↔
      content = .text value ∧ workflow.registry.languageOf? source = some language := by
  have hexists : tree.pathExists source = true := by
    simp [FileTree.pathExists, hfile.find?_eq htree]
  rw [openTask_eq_ok_iff, hexists]
  cases content with
  | text text =>
      simp only [hfile.readText_text htree]
      cases hlanguage : workflow.registry.languageOf? source <;>
        simp [languageFor, hlanguage, and_comm]
  | binary bytes => simp [hfile.readText_binary htree]

/-- The step of a run over files: the file comes out as the provider itself has it. -/
theorem Serves.translateFile_eq (h : workflow.Serves reference answer) (htree : tree.Proper)
    (hfile : tree.FileAt source location content)
    (hcalm : (workflow.translateFile tree { input := source }).workflow.session.cancelled =
      false) :
    (workflow.translateFile tree { input := source }).result.toOption =
        (reference.ownFile answer source content).1 ∧
      (workflow.translateFile tree { input := source }).tree =
        tree.withFile location (reference.ownFile answer source content).2 := by
  have hsame := htree.withFile_self hfile.mem
  cases hopen : workflow.openTask tree { input := source } with
  | error failure =>
      -- What cannot be opened holds no text, or its language is not known.
      have hown : reference.ownFile answer source content = (none, content) := by
        cases content with
        | binary bytes => rfl
        | text value =>
            cases hlanguage : reference.registry.languageOf? source with
            | none => simp only [ownFile, hlanguage]
            | some language =>
                rw [← h.registry_eq] at hlanguage
                rw [(openTask_of_fileAt htree hfile).mpr ⟨rfl, hlanguage⟩] at hopen
                cases hopen
      rw [translateFile_of_openTask_error hopen, hown, hsame]
      exact ⟨rfl, rfl⟩
  | ok opened =>
      obtain ⟨value, language⟩ := opened
      obtain ⟨rfl, hlanguage⟩ := (openTask_of_fileAt htree hfile).mp hopen
      rw [h.registry_eq] at hlanguage
      simp only [ownFile, hlanguage]
      rcases translateFile_cases_opened hopen with
        ⟨hskip, heq⟩ | ⟨-, hedits, after, hwrite, heq⟩ | ⟨-, -, fault, hwrite, heq⟩
      · rw [heq] at hcalm ⊢
        rw [h.fileReport_eq hcalm] at hskip ⊢
        rw [hskip.resolve_left Bool.false_ne_true, List.isEmpty_nil, if_pos rfl, hsame]
        exact ⟨rfl, rfl⟩
      · rw [heq] at hcalm ⊢
        rw [h.fileReport_eq hcalm] at hedits hwrite ⊢
        rw [if_neg (by simpa using hedits)]
        exact ⟨rfl, Except.ok.inj (hwrite.symm.trans (hfile.writeText_eq htree _))⟩
      · cases hwrite.symm.trans (hfile.writeText_eq htree _)

/-! ## Reports on files of a tree -/

/-- The report on a file of a tree that is brought to the provider itself. -/
def ownReport? (workflow : Workflow σ) (answer : String → Except Failure Translation)
    (tree : FileTree) (source : String) : Option FileReport :=
  match tree.find? source with
  | some (.file content) => (workflow.ownFile answer source content).1
  | _ => none

theorem ownReport?_of_fileAt (htree : tree.Proper) (hfile : tree.FileAt source location content) :
    reference.ownReport? answer tree source = (reference.ownFile answer source content).1 := by
  simp only [ownReport?, hfile.find?_eq htree]

theorem path_of_ownFile {report : FileReport}
    (h : (reference.ownFile answer source content).1 = some report) : report.path = source := by
  cases content with
  | binary bytes => cases h
  | text value =>
      cases hlanguage : reference.registry.languageOf? source with
      | none =>
          simp only [ownFile, hlanguage] at h
          cases h
      | some language =>
          simp only [ownFile, hlanguage] at h
          cases h
          rfl

theorem isSome_ownFile :
    (reference.ownFile answer source content).1.isSome = true ↔
      (∃ value, content = .text value) ∧
        (reference.registry.languageOf? source).isSome = true := by
  cases content with
  | binary bytes => simp [ownFile]
  | text value =>
      cases hlanguage : reference.registry.languageOf? source <;> simp [ownFile, hlanguage]

theorem exists_ownFile_of_ownReport? {report : FileReport}
    (h : reference.ownReport? answer tree source = some report) :
    ∃ content, (reference.ownFile answer source content).1 = some report := by
  unfold ownReport? at h
  split at h
  next content _ => exact ⟨content, h⟩
  next => cases h

/-- Each report is on the path that it was made for. -/
theorem map_path_ownReport? :
    (sources.filterMap (reference.ownReport? answer tree)).map FileReport.path =
      sources.filter fun source => (reference.ownReport? answer tree source).isSome := by
  have hpath : ∀ source, (reference.ownReport? answer tree source).map FileReport.path =
      Option.guard (fun source => (reference.ownReport? answer tree source).isSome) source := by
    intro source
    cases hreport : reference.ownReport? answer tree source with
    | none => simp [Option.guard, hreport]
    | some report =>
        obtain ⟨content, hown⟩ := exists_ownFile_of_ownReport? hreport
        simp [Option.guard, hreport, path_of_ownFile hown]
  rw [List.map_filterMap, funext hpath, List.filterMap_eq_filter]

/-! ## Where nothing cancels -/

theorem not_cancelled_of_undisturbed (h : workflow.undisturbed = workflow) :
    workflow.session.cancelled = false := by
  rw [← h]
  rfl

theorem undisturbed_translateDocument (h : workflow.undisturbed = workflow) (lines : List String)
    (language : String) :
    (workflow.translateDocument lines language).2.undisturbed =
      (workflow.translateDocument lines language).2 := by
  have hsession : workflow.session.undisturbed = workflow.session := congrArg session h
  have hevolves : workflow.session.undisturbed.Evolves (· ∈ workflow.requests lines language)
      (workflow.session.undisturbed.run (workflow.requests lines language)).session :=
    Session.evolves_runFrom _ _ fun _ hmem => hmem
  have hquiet := hevolves.undisturbed_eq
  rw [hsession] at hquiet
  exact congrArg (fun session =>
    { (workflow.translateDocument lines language).2 with session }) hquiet

theorem undisturbed_translateFile (h : workflow.undisturbed = workflow) (tree : FileTree)
    (task : FileTask) :
    (workflow.translateFile tree task).workflow.undisturbed =
      (workflow.translateFile tree task).workflow := by
  rcases workflow.workflow_translateFile_cases tree task with heq | ⟨lines, language, heq⟩
  · rw [heq]
    exact h
  · rw [heq]
    exact undisturbed_translateDocument h lines language

/-- The workflow before anything is translated, in which nothing cancels. -/
def fresh (workflow : Workflow σ) : Workflow σ :=
  { workflow.undisturbed.withCache workflow.session.cache.clear with
    history := ⟨workflow.history.capacity, []⟩ }

/-- What a fresh workflow makes of a file is what there is to be compared with. -/
theorem fresh_alone (hanswers : workflow.session.Answers workflow.options answer)
    (tree : FileTree) (source : String) :
    workflow.fresh.Serves workflow answer ∧
      (workflow.fresh.translateFile tree { input := source }).workflow.session.cancelled =
        false := by
  have hquiet : workflow.fresh.undisturbed = workflow.fresh :=
    congrArg (fun session => { workflow.fresh with
      session := { session with cache := workflow.session.cache.clear } })
      workflow.session.undisturbed_undisturbed
  refine ⟨⟨rfl, rfl, hanswers.undisturbed.of_translators_eq rfl, ?_⟩,
    not_cancelled_of_undisturbed (undisturbed_translateFile hquiet tree { input := source })⟩
  simp [Cache.Agrees, fresh, withCache]

end Marginalia.Workflow
