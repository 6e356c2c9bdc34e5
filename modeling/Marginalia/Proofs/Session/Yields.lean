import Marginalia.Proofs.Session.Answers

/-! # Translations of one kind

When every translation that the provider gives is of some kind and every translation in the cache
is, all translations of a run are of that kind: each comes from the one or the other, and only
translations that were given go into the cache.
-/

namespace Marginalia

variable {σ : Type} {good : Translation → Prop}

/-- Whether all translations in the cache are of a kind. -/
def Cache.HasOnly (cache : Cache) (good : Translation → Prop) : Prop :=
  ∀ entry ∈ cache.entries, good entry.2

theorem Cache.HasOnly.set {cache : Cache} (h : cache.HasOnly good) (key : String)
    {value : Translation} (hvalue : good value) : (cache.set key value).HasOnly good := by
  intro entry hmem
  rcases mem_of_mem_set hmem with rfl | hmem
  · exact hvalue
  · exact h entry hmem

namespace Session

/-- Whether all translations that the provider gives under the options are of a kind. -/
def Yields (session : Session σ) (options : Options) (good : Translation → Prop) : Prop :=
  ∀ request : Request, request.options = options → ∀ state translation,
    session.consult request state = .ok translation → good translation

variable {session later : Session σ} {options : Options} {request : Request}

theorem Yields.of_translators_eq (h : session.Yields options good)
    (htranslators : later.translators = session.translators) : later.Yields options good := by
  intro request hoptions state translation hconsult
  refine h request hoptions state translation ?_
  rw [← hconsult, consult, consult, translator?, translator?, htranslators]

theorem Yields.translate (h : session.Yields options good)
    (hcache : session.cache.HasOnly good) (hoptions : request.options = options) :
    (∀ translation, (session.translate request).1 = .ok translation → good translation) ∧
      (session.translate request).2.cache.HasOnly good := by
  have hgives := h request hoptions session.state
  unfold consult at hgives
  rcases translate_cases session request with
    ⟨translation, hfind, heq⟩ | ⟨-, translator, htranslator, heq⟩ | ⟨-, -, heq⟩
  · rw [heq]
    refine ⟨fun translation' hsame => ?_, hcache⟩
    obtain rfl := Except.ok.inj hsame
    exact hcache _ (Cache.mem_of_find? hfind)
  · rw [htranslator] at hgives
    rw [heq]
    refine ⟨hgives, ?_⟩
    simp only [ask]
    cases houtcome : (translator request session.state).outcome with
    | ok translation => exact hcache.set request.key (hgives translation houtcome)
    | error failure => exact hcache
  · rw [heq]
    exact ⟨fun _ hsame => (by cases hsame), hcache⟩

/-- The invariant of a run: the provider stays what it is, and the cache has nothing else. -/
theorem Yields.evolves (h : session.Yields options good) (hcache : session.cache.HasOnly good)
    (hevolves : session.Evolves (fun request => request.options = options) later) :
    later.Yields options good ∧ later.cache.HasOnly good := by
  refine ⟨h.of_translators_eq hevolves.translators_eq, ?_⟩
  induction hevolves with
  | refl => exact hcache
  | translate hoptions hbefore ih =>
      exact ((h.of_translators_eq hbefore.translators_eq).translate ih hoptions).2
  | awaitTurn pacer _ ih =>
      rw [cache_awaitTurn]
      exact ih

theorem Yields.of_mem_outcomes (h : session.Yields options good)
    (hcache : session.cache.HasOnly good) {requests : List Request}
    (hoptions : ∀ request ∈ requests, request.options = options) {translation : Translation}
    (hmem : .ok translation ∈ (session.run requests).outcomes) : good translation := by
  obtain ⟨index, houtcome⟩ := List.mem_iff_getElem?.mp hmem
  obtain ⟨request, before, hrequest, hbefore, htranslate, -⟩ :=
    exists_translate_of_outcome hoptions houtcome
  obtain ⟨hyields, hcache⟩ := h.evolves hcache hbefore
  have hrequest := hoptions request (List.mem_iff_getElem?.mpr ⟨index, hrequest⟩)
  exact (hyields.translate hcache hrequest).1 translation htranslate

end Session

end Marginalia
