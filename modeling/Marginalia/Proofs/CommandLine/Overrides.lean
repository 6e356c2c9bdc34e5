import Marginalia.CommandLine.Program
import Marginalia.Proofs.Comment.Cover
import Marginalia.Proofs.Workflow.Services

/-! # Settings that can be asked under

Settings come into force when their service has a name that is known and, where it needs one, a
base URL that is not blank. This is what the client of the service asks for too, so with settings
in force nothing but the transport can fail a translation.
-/

namespace Marginalia.CommandLine

variable {overrides : Overrides} {provider : Provider}

/-- Whether a service is the one that the command line names, or else that of the settings. -/
structure Overrides.Selects (overrides : Overrides) (settings : TranslateSettings)
    (provider : Provider) : Prop where
  named : ∀ name, overrides.provider = some name → Provider.ofUserName name = .ok provider
  unnamed : overrides.provider = none → provider = settings.provider

/-- Whether settings are others with what the command line gives in their place. -/
structure Overrides.Override (overrides : Overrides) (settings effective : Settings) : Prop where
  selects : overrides.Selects settings.translate effective.translate.provider
  sourceLanguage_eq : effective.translate.sourceLanguage =
    overrides.source.getD settings.translate.sourceLanguage
  targetLanguage_eq : effective.translate.targetLanguage =
    overrides.target.getD settings.translate.targetLanguage
  libreUrl_eq : effective.translate.libreUrl =
    overrides.libreUrl.getD settings.translate.libreUrl
  delay_eq : effective.translate.delay = settings.translate.delay
  timeout_eq : effective.translate.timeout = settings.translate.timeout
  cacheCapacity_eq : effective.translate.cacheCapacity = settings.translate.cacheCapacity
  historyCapacity_eq : effective.historyCapacity = settings.historyCapacity
  languagesFile_eq : effective.languagesFile = settings.languagesFile

/-- The settings with a service and with what the command line gives in their place. -/
def Overrides.over (overrides : Overrides) (settings : Settings) (provider : Provider) :
    Settings :=
  { settings with
    translate := { settings.translate with
      sourceLanguage := overrides.source.getD settings.translate.sourceLanguage
      targetLanguage := overrides.target.getD settings.translate.targetLanguage
      provider
      libreUrl := overrides.libreUrl.getD settings.translate.libreUrl } }

theorem override_over {settings : Settings} (h : overrides.Selects settings.translate provider) :
    overrides.Override settings (overrides.over settings provider) :=
  ⟨h, rfl, rfl, rfl, rfl, rfl, rfl, rfl, rfl⟩

theorem Overrides.Override.eq_over {settings effective : Settings}
    (h : overrides.Override settings effective) :
    effective = overrides.over settings effective.translate.provider := by
  obtain ⟨-, hsource, htarget, hurl, hdelay, htimeout, hcache, hhistory, hlanguages⟩ := h
  obtain ⟨translate, capacity, file⟩ := effective
  obtain ⟨source, target, provider, url, delay, timeout, cache⟩ := translate
  simp only at hsource htarget hurl hdelay htimeout hcache hhistory hlanguages
  subst hsource htarget hurl hdelay htimeout hcache hhistory hlanguages
  rfl

theorem providerOr_eq_ok_iff {settings : TranslateSettings} :
    overrides.providerOr settings.provider = .ok provider ↔
      overrides.Selects settings provider := by
  unfold Overrides.providerOr
  split
  next hnone =>
    constructor
    · rintro ⟨⟩
      exact ⟨by simp [hnone], fun _ => rfl⟩
    · intro h
      rw [h.unnamed hnone]
  next name hname =>
    constructor
    · intro h
      refine ⟨fun other hother => ?_, by simp [hname]⟩
      cases hname.symm.trans hother
      split at h
      next hprovider =>
        cases h
        exact hprovider
      next => cases h
    · intro h
      rw [h.named name hname]

/-! ## Usable settings -/

/-- An address can be made of a base URL that is not blank. -/
theorem exists_translateUrl_iff {base : String} :
    (∃ url, Libre.translateUrl (some base) = .ok url) ↔ (Text.trim base).isEmpty = false := by
  have htrim : (Text.trim base).isEmpty = true ↔ Text.trimList base.toList = [] := by
    rw [String.isEmpty_iff, ← String.toList_eq_nil_iff, Text.trim, String.toList_ofList]
  rw [Bool.eq_false_iff, ne_eq, htrim, Libre.translateUrl, Option.getD_some]
  cases Text.trimList base.toList <;> simp

theorem isUsable_iff {settings : TranslateSettings} :
    isUsable settings = true ↔ (settings.provider = .libreTranslate →
      ∃ url, Libre.translateUrl (some settings.libreUrl) = .ok url) := by
  rw [exists_translateUrl_iff]
  unfold isUsable
  split
  next hprovider => simp [hprovider]
  next hprovider => simp [hprovider]

theorem endpoint_of_libreTranslate {settings : TranslateSettings}
    (h : settings.provider = .libreTranslate) :
    settings.options.endpoint = some settings.libreUrl := by
  simp [TranslateSettings.options, h]

/-- Settings come into force exactly when they are those of the command line over the given ones and
can be used. -/
theorem apply_eq_ok_iff {settings effective : Settings} :
    overrides.apply settings = .ok effective ↔
      overrides.Override settings effective ∧ isUsable effective.translate = true := by
  unfold Overrides.apply
  constructor
  · intro h
    cases hprovider : overrides.providerOr settings.translate.provider with
    | error failure =>
        simp only [hprovider, bind, Except.bind] at h
        cases h
    | ok provider =>
        simp only [hprovider, bind, Except.bind] at h
        split at h
        next husable =>
          cases h
          exact ⟨override_over (providerOr_eq_ok_iff.mp hprovider), husable⟩
        next => cases h
  · rintro ⟨hoverride, husable⟩
    rw [hoverride.eq_over] at husable ⊢
    simp only [providerOr_eq_ok_iff.mpr hoverride.selects, bind, Except.bind]
    exact if_pos husable

/-! ## Translations under settings in force -/

section Workflows

variable {σ : Type} {network : Http.Network σ} {workflow : Workflow σ} {options : Options}
  {tree : FileTree}

theorem goesBy_ofSettings [Pattern.Compiler] {settings : Settings} {pause : σ → Bool × σ}
    {state : σ}
    (husable : isUsable settings.translate = true)
    (h : Workflow.ofSettings settings tree network pause state = .ok workflow) :
    workflow.GoesBy network settings.translate.options := by
  unfold Workflow.ofSettings at h
  cases hregistry : settings.registry tree with
  | error failure =>
      simp only [hregistry, bind, Except.bind] at h
      cases h
  | ok registry =>
      simp only [hregistry, bind, Except.bind] at h
      cases h
      refine ⟨rfl, Session.reaches_ofSettings pause state fun hprovider => ?_, by
        simp [Session.AskedUnder, Session.ofSettings]⟩
      rw [endpoint_of_libreTranslate hprovider]
      exact isUsable_iff.mp husable hprovider

/-- What is known of a workflow whose settings are in force. It asks under these settings alone, and
wherever its translations lead, with or without a cancellation, there is a translator that puts the
next request to the network. So nothing but the transport of the service can fail a translation: of
one text or in a run over texts, by an operation or by the command that translates a text. -/
structure OnlyTransportFails (workflow : Workflow σ) (network : Http.Network σ)
    (settings : Settings) : Prop where
  options_eq : workflow.options = settings.translate.options
  asked : workflow.session.AskedUnder settings.translate.options
  reaches : ∀ session,
    workflow.session.Evolves (fun request => request.options = workflow.options) session ∨
      workflow.session.undisturbed.Evolves (fun request => request.options = workflow.options)
        session →
    session.Reaches network workflow.options ∧
      ∀ text failure, (session.translate (workflow.options.request text)).1 = .error failure →
        ∃ fault, failure = .transport settings.translate.provider fault
  run : ∀ (texts : List String) (failure : Failure),
    .error failure ∈ (workflow.session.run (texts.map workflow.options.request)).outcomes ∨
      .error failure ∈
        (workflow.session.undisturbed.run (texts.map workflow.options.request)).outcomes →
    ∃ fault, failure = .transport settings.translate.provider fault
  perform : ∀ operation : Workflow.Operation σ, operation.GoesBy workflow.options →
    ∀ request failure, (workflow.perform operation).1 = .outcome request (.error failure) →
      ∃ fault, failure = .transport settings.translate.provider fault
  execute : ∀ text tree message,
    (Command.text text).execute settings workflow tree = .error message →
    ∃ fault, message = Failure.message (.transport settings.translate.provider fault)

theorem onlyTransportFails_of_goesBy {settings : Settings}
    (h : workflow.GoesBy network settings.translate.options) :
    OnlyTransportFails workflow network settings := by
  obtain ⟨hoptions, hreaches, hasked⟩ := h
  have hprovider : workflow.options.provider = settings.translate.provider := by
    rw [hoptions]
    rfl
  rw [← hoptions] at hreaches
  -- A translator is found wherever translations lead, since they leave the registered ones alone.
  refine ⟨hoptions, hasked, fun session hsession => ?_, fun texts failure hmem => ?_,
    fun operation hoperation request failure hanswer => ?_, fun text tree message hmessage => ?_⟩
  · have hthere : session.Reaches network workflow.options := by
      rcases hsession with hevolves | hevolves
      · exact hreaches.evolves hevolves
      · exact hreaches.undisturbed.evolves hevolves
    exact ⟨hthere, fun text failure hfails => hprovider ▸ hthere.exists_transport hfails⟩
  · rw [← hprovider]
    rcases hmem with hmem | hmem
    · exact hreaches.exists_transport_of_run hmem
    · exact hreaches.undisturbed.exists_transport_of_run hmem
  · rw [← hprovider]
    cases operation with
    | translate asked =>
        obtain ⟨text, options⟩ := asked
        cases hoperation
        simp only [Workflow.perform, Workflow.Answer.outcome.injEq] at hanswer
        exact hreaches.exists_transport hanswer.2
    | translateSelection text line =>
        simp only [Workflow.perform, Workflow.translateSelection,
          Workflow.Answer.outcome.injEq] at hanswer
        exact hreaches.exists_transport hanswer.2
    | _ => cases hanswer
  · simp only [Command.execute] at hmessage
    split at hmessage
    next failure hfails =>
      obtain ⟨fault, rfl⟩ := hreaches.exists_transport hfails
      rw [hprovider] at hmessage
      exact ⟨fault, (Except.error.inj hmessage).symm⟩
    next => cases hmessage

end Workflows

/-- Settings come into force exactly when the service of the command line, if one is named, has a
known name, and an address can be made of the base URL where the service is LibreTranslate. They are
then those of the command line where it gives any. Whatever a workflow of theirs does, short of
taking other options or other translators, only the transport can fail its translations. -/
theorem onlyTransportFails_of_apply [Pattern.Compiler] (overrides : Overrides)
    (settings : Settings) :
    ((∃ effective, overrides.apply settings = .ok effective) ↔
      ∃ provider, overrides.Selects settings.translate provider ∧
        (provider = .libreTranslate → ∃ url, Libre.translateUrl
          (some (overrides.libreUrl.getD settings.translate.libreUrl)) = .ok url)) ∧
    ∀ effective, overrides.apply settings = .ok effective →
      overrides.Override settings effective ∧
      ∀ (σ : Type) (tree : FileTree) (network : Http.Network σ) (pause : σ → Bool × σ) (state : σ)
        (start : Workflow σ), Workflow.ofSettings effective tree network pause state = .ok start →
        ∀ operations : List (Workflow.Operation σ),
          (∀ operation ∈ operations, operation.GoesBy start.options) →
            OnlyTransportFails (start.performAll operations) network effective := by
  constructor
  · constructor
    · rintro ⟨effective, heffective⟩
      obtain ⟨hoverride, husable⟩ := apply_eq_ok_iff.mp heffective
      refine ⟨_, hoverride.selects, ?_⟩
      rw [← hoverride.libreUrl_eq]
      exact isUsable_iff.mp husable
    · rintro ⟨provider, hselects, hurl⟩
      exact ⟨overrides.over settings provider,
        apply_eq_ok_iff.mpr ⟨override_over hselects, isUsable_iff.mpr hurl⟩⟩
  · intro effective heffective
    obtain ⟨hoverride, husable⟩ := apply_eq_ok_iff.mp heffective
    refine ⟨hoverride, fun σ tree network pause state start hstart operations hoperations => ?_⟩
    have hbegun := goesBy_ofSettings husable hstart
    rw [hbegun.options_eq] at hoperations
    exact onlyTransportFails_of_goesBy (hbegun.performAll operations hoperations)

/-- LibreTranslate in other letters than its name, at a base URL. -/
def libreAt (url : String) : Overrides := { provider := some "LIBRE", libreUrl := some url }

/-- The settings with a base URL between blanks. -/
def hostSettings : Settings :=
  { translate := { provider := .libreTranslate, libreUrl := " http://host// " } }

def hostSession : Session Unit :=
  .ofSettings hostSettings.translate Http.offline (fun state => (false, state)) ()

def hostWorkflow (registry : Registry) : Workflow Unit where
  registry
  session := hostSession
  history := { capacity := hostSettings.historyCapacity }
  options := hostSettings.translate.options

/-- Nobody answers at a base URL between blanks, before and after the cache is cleared; and one of
blanks alone is refused at once. -/
theorem onlyTransportFails_of_apply_host :
    ∃ registry, Registry.builtin = .ok registry ∧
      (libreAt " http://host// ").apply { } = .ok hostSettings ∧
      Workflow.ofSettings hostSettings { } Http.offline (fun state => (false, state)) () =
        .ok (hostWorkflow registry) ∧
      let later := (hostWorkflow registry).performAll
        [.translateBatch hostSettings.translate.options ["a", "b"], .clearCache]
      OnlyTransportFails later Http.offline hostSettings ∧
      (∃ fault, (later.session.translate (later.options.request "a")).1 =
        .error (.transport .libreTranslate fault)) ∧
      ¬ ∃ effective, (libreAt " \t").apply { } = .ok effective := by
  obtain ⟨registry, hbuiltin, -⟩ := Registry.exists_builtin (fun _ => true) (by decide +kernel)
  have happly : (libreAt " http://host// ").apply { } = .ok hostSettings := by decide +kernel
  have hstart : Workflow.ofSettings hostSettings { } Http.offline (fun state => (false, state)) () =
      .ok (hostWorkflow registry) := by
    simp only [Workflow.ofSettings, Settings.registry, hbuiltin]
    rfl
  have hfails : ((hostSession.translateBatch hostSettings.translate.options
      ["a", "b"]).2.clearCache.translate (hostSettings.translate.options.request "a")).1 =
        .error (.transport .libreTranslate .noAnswer) := by
    decide +kernel
  have hclaim := onlyTransportFails_of_apply (libreAt " http://host// ") { }
  have hlater := (hclaim.2 hostSettings happly).2 Unit { } Http.offline _ () _ hstart
    [.translateBatch hostSettings.translate.options ["a", "b"], .clearCache]
    (by simp [Workflow.Operation.GoesBy, hostWorkflow])
  refine ⟨registry, hbuiltin, happly, hstart, hlater, ⟨.noAnswer, hfails⟩, ?_⟩
  rw [(onlyTransportFails_of_apply (libreAt " \t") { }).1]
  rintro ⟨provider, hselects, hurl⟩
  cases provider with
  | google => exact absurd (hselects.named "LIBRE" rfl) (by decide +kernel)
  | libreTranslate =>
      obtain ⟨url, hurl⟩ := hurl rfl
      cases hurl

end Marginalia.CommandLine
