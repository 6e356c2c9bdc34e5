import Marginalia.Proofs.Session.Cancellation
import Marginalia.Service.Client

/-! # Sessions that reach a service

Requests under certain options reach their service when a translator is registered for it that puts
each of them to the network, at an address which for LibreTranslate has to be a usable one. What can
still go wrong then is the transport: the network fails, or what comes back is no answer. No session
loses its services, whatever it translates.
-/

namespace Marginalia

variable {provider : Provider} {answer : Http.Answer} {request : Request} {failure : Failure}

/-! ## Failures of the clients -/

theorem exists_transport_of_successBody (h : successBody provider answer = .error failure) :
    ∃ fault, failure = .transport provider fault := by
  unfold successBody at h
  split at h
  next => exact ⟨_, (Except.error.inj h).symm⟩
  next =>
    split at h
    next => exact ⟨_, (Except.error.inj h).symm⟩
    next =>
      split at h
      next => exact ⟨_, (Except.error.inj h).symm⟩
      next => cases h

theorem Google.exists_transport_of_read (h : read request answer = .error failure) :
    ∃ fault, failure = .transport .google fault := by
  unfold read at h
  cases hbody : successBody .google answer with
  | error cause =>
      rw [hbody] at h
      cases h
      exact exists_transport_of_successBody hbody
  | ok body =>
      rw [hbody] at h
      simp only [bind, Except.bind] at h
      split at h
      next =>
        unfold decode at h
        split at h
        next => exact ⟨_, (Except.error.inj h).symm⟩
        next => cases h
      next => exact ⟨_, (Except.error.inj h).symm⟩

theorem Libre.exists_transport_of_read (h : read request answer = .error failure) :
    ∃ fault, failure = .transport .libreTranslate fault := by
  unfold read at h
  cases hbody : successBody .libreTranslate answer with
  | error cause =>
      rw [hbody] at h
      cases h
      exact exists_transport_of_successBody hbody
  | ok body =>
      rw [hbody] at h
      simp only [bind, Except.bind, decode] at h
      split at h
      next => exact ⟨_, (Except.error.inj h).symm⟩
      next => cases h

/-! ## Translators -/

variable {σ : Type} {network : Http.Network σ} {options : Options} {translator : Translator σ}

/-- Whether a translator puts requests under the options to the network, and reads the translation
out of what comes back. -/
inductive Translator.Consults (translator : Translator σ) (network : Http.Network σ)
    (options : Options) : Prop
  | google (hprovider : options.provider = .google)
    (houtcome : ∀ text state, (translator (options.request text) state).outcome =
      Google.read (options.request text)
        (network (Google.exchange Google.publicEndpoint (options.request text)) state).1)
  | libreTranslate (url : String) (hprovider : options.provider = .libreTranslate)
    (hurl : Libre.translateUrl options.endpoint = .ok url)
    (houtcome : ∀ text state, (translator (options.request text) state).outcome =
      Libre.read (options.request text)
        (network (Libre.exchange url (options.request text)) state).1)

theorem consults_google_client (hprovider : options.provider = .google) :
    (Google.client network Google.publicEndpoint).Consults network options :=
  .google hprovider fun _ _ => rfl

theorem consults_libre_client {url : String} (hprovider : options.provider = .libreTranslate)
    (hurl : Libre.translateUrl options.endpoint = .ok url) :
    (Libre.client network).Consults network options := by
  refine .libreTranslate url hprovider hurl fun text state => ?_
  have hrequest : Libre.translateUrl (options.request text).options.endpoint = .ok url := hurl
  simp only [Libre.client, hrequest]

theorem Translator.Consults.quiet (h : translator.Consults network options) :
    translator.quiet.Consults network options := by
  cases h with
  | google hprovider houtcome => exact .google hprovider houtcome
  | libreTranslate url hprovider hurl houtcome =>
      exact .libreTranslate url hprovider hurl houtcome

/-- A translator that puts requests to the network fails only by the transport. -/
theorem Translator.Consults.exists_transport (h : translator.Consults network options)
    {text : String} {state : σ}
    (hfails : (translator (options.request text) state).outcome = .error failure) :
    ∃ fault, failure = .transport options.provider fault := by
  cases h with
  | google hprovider houtcome =>
      rw [houtcome] at hfails
      rw [hprovider]
      exact Google.exists_transport_of_read hfails
  | libreTranslate url hprovider hurl houtcome =>
      rw [houtcome] at hfails
      rw [hprovider]
      exact Libre.exists_transport_of_read hfails

/-! ## Sessions -/

namespace Session

variable {session later : Session σ} {pacer : Pacer} {asks : Request → Prop}

/-- Whether a translator that puts requests under the options to the network is registered. -/
def Reaches (session : Session σ) (network : Http.Network σ) (options : Options) : Prop :=
  ∃ translator, session.translator? options.provider = some translator ∧
    translator.Consults network options

/-- Whether translators were asked for nothing but requests under the options. -/
def AskedUnder (session : Session σ) (options : Options) : Prop :=
  ∀ request answer, .called request answer ∈ session.events → request.options = options

theorem Reaches.of_translators_eq (h : session.Reaches network options)
    (htranslators : later.translators = session.translators) : later.Reaches network options := by
  obtain ⟨translator, hregistered, hconsults⟩ := h
  refine ⟨translator, ?_, hconsults⟩
  rw [translator?, htranslators]
  exact hregistered

theorem Reaches.evolves (h : session.Reaches network options)
    (hevolves : session.Evolves asks later) : later.Reaches network options :=
  h.of_translators_eq hevolves.translators_eq

theorem Reaches.undisturbed (h : session.Reaches network options) :
    session.undisturbed.Reaches network options := by
  obtain ⟨translator, hregistered, hconsults⟩ := h
  refine ⟨translator.quiet, ?_, hconsults.quiet⟩
  rw [translator?_undisturbed, hregistered]
  rfl

/-- A translation in a session that reaches the service fails only by the transport. -/
theorem Reaches.exists_transport (h : session.Reaches network options) {text : String}
    (hfails : (session.translate (options.request text)).1 = .error failure) :
    ∃ fault, failure = .transport options.provider fault := by
  obtain ⟨translator, hregistered, hconsults⟩ := h
  rcases translate_cases session (options.request text) with
    ⟨_, -, heq⟩ | ⟨-, asked, hasked, heq⟩ | ⟨-, hmissing, -⟩
  · rw [heq] at hfails
    cases hfails
  · rw [heq] at hfails
    obtain rfl : translator = asked := Option.some.inj (hregistered.symm.trans hasked)
    exact hconsults.exists_transport hfails
  · cases hregistered.symm.trans hmissing

/-- In a run over texts as well, every failure is one of the transport. -/
theorem Reaches.exists_transport_of_run (h : session.Reaches network options)
    {texts : List String}
    (hmem : .error failure ∈ (session.run (texts.map options.request)).outcomes) :
    ∃ fault, failure = .transport options.provider fault := by
  have hasks : ∀ request ∈ texts.map options.request, request.options = options :=
    List.forall_mem_map.mpr fun _ _ => rfl
  obtain ⟨index, hindex⟩ := List.getElem?_of_mem hmem
  obtain ⟨request, before, hrequest, hevolves, hfails, -⟩ :=
    exists_translate_of_outcome hasks hindex
  obtain ⟨text, -, rfl⟩ := List.mem_map.mp (List.mem_of_getElem? hrequest)
  exact (h.evolves hevolves).exists_transport hfails

theorem AskedUnder.concat (h : session.AskedUnder options) {event : Event}
    (hevents : later.events = session.events ++ [event])
    (hevent : ∀ request answer, event = .called request answer → request.options = options) :
    later.AskedUnder options := by
  intro request answer hmem
  rw [hevents, List.mem_append, List.mem_singleton] at hmem
  rcases hmem with hmem | heq
  · exact h request answer hmem
  · exact hevent request answer heq.symm

theorem AskedUnder.translate (h : session.AskedUnder options)
    (hoptions : request.options = options) :
    (session.translate request).2.AskedUnder options := by
  rcases translate_cases session request with ⟨_, -, heq⟩ | ⟨-, _, -, heq⟩ | ⟨-, -, heq⟩
  · rw [heq]
    exact h
  · rw [heq]
    refine h.concat rfl fun _ _ hevent => ?_
    cases hevent
    exact hoptions
  · rw [heq]
    exact h

theorem AskedUnder.awaitTurn (h : session.AskedUnder options) :
    (session.awaitTurn pacer).2.2.AskedUnder options := by
  rcases awaitTurn_cases session pacer with ⟨-, heq⟩ | ⟨-, -, -, heq⟩ | ⟨-, -, _, heq⟩
  · rw [heq]
    exact h
  · rw [heq]
    exact h.concat rfl (by simp)
  · rw [heq]
    exact h.concat rfl (by simp)

theorem AskedUnder.evolves (h : session.AskedUnder options)
    (hevolves : session.Evolves (fun request => request.options = options) later) :
    later.AskedUnder options := by
  induction hevolves with
  | refl => exact h
  | translate hoptions _ ih => exact ih.translate hoptions
  | awaitTurn _ _ ih => exact ih.awaitTurn

/-- A batch asks under its options. -/
theorem evolves_translateBatch_under (texts : List String) :
    session.Evolves (fun request => request.options = options)
      (session.translateBatch options texts).2 :=
  evolves_runFrom _ _ (List.forall_mem_map.mpr fun _ _ => rfl)

/-! ## The session of settings -/

theorem reaches_ofSettings {settings : TranslateSettings} (pause : σ → Bool × σ) (state : σ)
    (husable : settings.provider = .libreTranslate →
      ∃ url, Libre.translateUrl settings.options.endpoint = .ok url) :
    (ofSettings settings network pause state).Reaches network settings.options := by
  have hprovider : settings.options.provider = settings.provider := rfl
  cases hsettings : settings.provider with
  | google => exact ⟨_, by rw [hprovider, hsettings]; rfl, consults_google_client hsettings⟩
  | libreTranslate =>
      obtain ⟨url, hurl⟩ := husable hsettings
      exact ⟨_, by rw [hprovider, hsettings]; rfl, consults_libre_client hsettings hurl⟩

end Session

end Marginalia
