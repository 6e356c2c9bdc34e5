import Marginalia.Proofs.Service.Client
import Marginalia.Proofs.Workflow.Provenance

/-! # Workflows that reach their service

A workflow asks under its options. Where these reach a service they go on to do so, whatever the
workflow translates, as long as neither the options nor the translators are replaced.
-/

namespace Marginalia

variable {σ : Type} {network : Http.Network σ} {options : Options}

namespace Workflow

/-- Whether an operation asks under the options, and replaces neither them nor a translator. -/
def Operation.GoesBy (options : Options) : Operation σ → Prop
  | .translate request => request.options = options
  | .translateBatch given _ => given = options
  | .translateWholeBatch given _ => given = options
  | .setOptions given => given = options
  | .register _ _ => False
  | _ => True

/-- Whether a workflow has the options, reaches their service and asked for nothing else. -/
structure GoesBy (workflow : Workflow σ) (network : Http.Network σ) (options : Options) : Prop where
  options_eq : workflow.options = options
  reaches : workflow.session.Reaches network options
  asked : workflow.session.AskedUnder options

variable {workflow later : Workflow σ}

/-! ## Translations -/

theorem GoesBy.evolves (h : workflow.GoesBy network options)
    (hoptions : later.options = workflow.options)
    (hevolves : workflow.session.Evolves (fun request => request.options = options)
      later.session) :
    later.GoesBy network options :=
  ⟨hoptions.trans h.options_eq, h.reaches.evolves hevolves, h.asked.evolves hevolves⟩

theorem GoesBy.translate (h : workflow.GoesBy network options) (request : Request)
    (hrequest : request.options = options) (hoptions : later.options = workflow.options)
    (hsession : later.session = (workflow.session.translate request).2) :
    later.GoesBy network options :=
  h.evolves hoptions (hsession ▸ .translate hrequest .refl)

theorem GoesBy.translateDocument (h : workflow.GoesBy network options) (lines : List String)
    (language : String) : (workflow.translateDocument lines language).2.GoesBy network options :=
  h.evolves rfl (Session.evolves_runFrom _ _ (List.forall_mem_map.mpr fun _ _ => h.options_eq))

theorem GoesBy.translateFile (h : workflow.GoesBy network options) (tree : FileTree)
    (task : FileTask) : (workflow.translateFile tree task).workflow.GoesBy network options := by
  rcases translateFile_cases_document workflow tree task with
    ⟨_, heq⟩ | ⟨lines, language, hworkflow, -⟩
  · rw [heq]
    exact h
  · rw [hworkflow]
    exact h.translateDocument lines language

theorem GoesBy.translateFiles (h : workflow.GoesBy network options) {dryRun : Bool}
    {tree : FileTree} (paths : List String) :
    (translateFiles dryRun workflow tree paths).2.2.GoesBy network options := by
  induction paths generalizing workflow tree with
  | nil => exact h
  | cons path paths ih =>
      unfold Workflow.translateFiles
      split
      next => exact h
      next =>
        have hfirst := h.translateFile tree { input := path, dryRun }
        simp only
        split
        next => exact ih hfirst
        next => exact ih hfirst

/-! ## Operations -/

/-- The step: an operation that goes by the options leaves a workflow that does. -/
theorem GoesBy.perform (h : workflow.GoesBy network options) {operation : Operation σ}
    (hoperation : operation.GoesBy options) :
    (workflow.perform operation).2.GoesBy network options := by
  cases operation with
  | translate request => exact h.translate request hoperation rfl rfl
  | translateBatch given texts =>
      cases hoperation
      exact h.evolves rfl (Session.evolves_translateBatch_under texts)
  | translateWholeBatch given texts =>
      -- Where nothing cancels the batch asks the same, but of other translators.
      cases hoperation
      have hbefore : workflow.session.undisturbed.AskedUnder options := h.asked
      have hafter := hbefore.evolves (Session.evolves_translateBatch_under texts)
      rw [Session.translateBatch_undisturbed_eq] at hafter
      have hkept := Session.translators_runWholeFrom workflow.session { }
        (texts.map options.request)
      exact ⟨h.options_eq, h.reaches.of_translators_eq hkept, hafter⟩
  | translateDocument lines language => exact h.translateDocument lines language
  | translateSelection text line =>
      exact h.translate (workflow.options.request text) h.options_eq rfl rfl
  | preview line language =>
      simp only [Workflow.perform, Workflow.preview]
      cases workflow.registry.extract? line language with
      | none => exact h
      | some comment =>
          exact h.translate (workflow.options.request comment.body) h.options_eq rfl rfl
  | translateFile tree task => exact h.translateFile tree task
  | translateDirectory tree directory dryRun =>
      simp only [Workflow.perform, Workflow.translateDirectory]
      split
      next => exact h.translateFiles _
      next => exact h
  | setOptions given => exact ⟨hoperation, h.reaches, h.asked⟩
  | register provider translator => cases hoperation
  | clearCache =>
      exact ⟨h.options_eq, h.reaches.of_translators_eq rfl, h.asked.concat rfl (by simp)⟩
  | undo lines =>
      simp only [Workflow.perform, Workflow.undo]
      split
      next => exact h
      next => split <;> exact ⟨h.options_eq, h.reaches, h.asked⟩
  | changeHistory change => exact ⟨h.options_eq, h.reaches, h.asked⟩
  | proceed state cancelled => exact ⟨h.options_eq, h.reaches.of_translators_eq rfl, h.asked⟩

/-- The run: so do any number of operations. -/
theorem GoesBy.performAll (h : workflow.GoesBy network options) (operations : List (Operation σ))
    (hoperations : ∀ operation ∈ operations, operation.GoesBy options) :
    (workflow.performAll operations).GoesBy network options := by
  induction operations generalizing workflow with
  | nil => exact h
  | cons operation operations ih =>
      obtain ⟨hfirst, hrest⟩ := List.forall_mem_cons.mp hoperations
      exact ih (h.perform hfirst) hrest

end Workflow

end Marginalia
