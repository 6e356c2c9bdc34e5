import Marginalia.Proofs.Session.Cancellation

/-! # Providers that answer by the key

When the provider's outcome for a text is a function of the text's key, and the cache agrees with
that function, a translation is that function too, whether it comes from the cache or not. What
is stored on the way agrees as well, and a failure stores nothing, so this holds along every run,
however small the cache is.
-/

namespace Marginalia

/-- Whether every entry of the cache is what is answered for its key. -/
def Cache.Agrees (cache : Cache) (answer : String → Except Failure Translation) : Prop :=
  ∀ entry ∈ cache.entries, answer entry.1 = .ok entry.2

variable {σ : Type} {answer : String → Except Failure Translation}

theorem Cache.Agrees.set {cache : Cache} {key : String} {value : Translation}
    (h : cache.Agrees answer) (hvalue : answer key = .ok value) :
    (cache.set key value).Agrees answer := by
  intro entry hmem
  rcases mem_of_mem_set hmem with rfl | hmem
  · exact hvalue
  · exact h entry hmem

namespace Session

/-- The outcome for a request when its provider is asked in a state, whatever the cache has. -/
def consult (session : Session σ) (request : Request) (state : σ) : Except Failure Translation :=
  match session.translator? request.options.provider with
  | some translator => (translator request state).outcome
  | none => .error (.setting (.unregistered request.options.provider))

/-- Whether the outcomes for requests under the options are a function of their keys. -/
def Answers (session : Session σ) (options : Options)
    (answer : String → Except Failure Translation) : Prop :=
  ∀ request : Request, request.options = options →
    ∀ state, session.consult request state = answer request.key

variable {session : Session σ} {options : Options} {request : Request} {pacer : Pacer}

theorem translate_of_answers (hanswers : session.Answers options answer)
    (hcache : session.cache.Agrees answer) (hoptions : request.options = options) :
    (session.translate request).1 = answer request.key ∧
      (session.translate request).2.cache.Agrees answer := by
  have hconsult := hanswers request hoptions session.state
  unfold consult at hconsult
  rcases translate_cases session request with
    ⟨translation, hfind, heq⟩ | ⟨-, translator, htranslator, heq⟩ | ⟨-, htranslator, heq⟩
  · rw [heq]
    exact ⟨(hcache _ (Cache.mem_of_find? hfind)).symm, hcache⟩
  · rw [htranslator] at hconsult
    rw [heq]
    refine ⟨hconsult, ?_⟩
    simp only [ask]
    cases houtcome : (translator request session.state).outcome with
    | ok translation => exact hcache.set (hconsult.symm.trans houtcome)
    | error failure => exact hcache
  · rw [htranslator] at hconsult
    rw [heq]
    exact ⟨hconsult, hcache⟩

theorem cache_awaitTurn : (session.awaitTurn pacer).2.2.cache = session.cache := by
  rcases awaitTurn_cases session pacer with ⟨-, heq⟩ | ⟨-, -, -, heq⟩ | ⟨-, -, _, heq⟩ <;> rw [heq]

theorem Answers.of_translators_eq {later : Session σ} (h : session.Answers options answer)
    (htranslators : later.translators = session.translators) : later.Answers options answer := by
  intro request hoptions state
  rw [← h request hoptions state, consult, consult, translator?, translator?, htranslators]

/-- The invariant of a run: the provider stays what it is, and the cache goes on to agree. -/
theorem Answers.evolves {later : Session σ} (hanswers : session.Answers options answer)
    (hcache : session.cache.Agrees answer)
    (h : session.Evolves (fun request => request.options = options) later) :
    later.Answers options answer ∧ later.cache.Agrees answer := by
  refine ⟨hanswers.of_translators_eq h.translators_eq, ?_⟩
  induction h with
  | refl => exact hcache
  | translate hoptions hevolves ih =>
      have hlater := hanswers.of_translators_eq hevolves.translators_eq
      exact (translate_of_answers hlater ih hoptions).2
  | awaitTurn pacer _ ih =>
      rw [cache_awaitTurn]
      exact ih

theorem Answers.undisturbed (h : session.Answers options answer) :
    session.undisturbed.Answers options answer := by
  intro request hoptions state
  rw [← h request hoptions state, consult, consult, translator?_undisturbed]
  cases session.translator? request.options.provider <;> rfl

/-- A whole run has the provider's own outcome for every text, whatever the cache is. -/
theorem Answers.outcomes_run (hanswers : session.Answers options answer)
    (hcache : session.cache.Agrees answer) (texts : List String) :
    (session.undisturbed.run (texts.map options.request)).outcomes =
      texts.map fun text => answer (Cache.key text options.target) := by
  have hasks : ∀ request ∈ texts.map options.request, request.options = options := by
    simp [Options.request]
  have hlength := length_runFrom_undisturbed session { } (texts.map options.request)
  rw [List.length_map] at hlength
  apply List.ext_getElem
  · rw [List.length_map]
    exact hlength
  · intro index hindex hindex'
    obtain ⟨request, before, hrequest, hbefore, houtcome, -⟩ :=
      exists_translate_of_outcome hasks (List.getElem?_eq_getElem hindex)
    obtain ⟨hbefore, hagrees⟩ := hanswers.undisturbed.evolves hcache hbefore
    rw [List.getElem?_map, Option.map_eq_some_iff] at hrequest
    obtain ⟨text, htext, rfl⟩ := hrequest
    obtain ⟨_, rfl⟩ := List.getElem?_eq_some_iff.mp htext
    rw [← houtcome, (translate_of_answers hbefore hagrees rfl).1, List.getElem_map]
    rfl

end Session

end Marginalia
