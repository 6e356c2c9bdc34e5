import Marginalia.Proofs.Session.Cancellation

/-! # Where translations come from

The log of a session accounts for its cache: played back from an empty cache it leads to the
cache as it is. So a translation that is in the cache was given by a translator, for a request
with the same key and since the cache was last cleared, and a translator is asked only for what
the cache does not have at that moment.
-/

namespace Marginalia

/-- The cache after an event. Only what a translator translated is stored. -/
def Cache.record (cache : Cache) : Event → Cache
  | .called request (some translation) => cache.set request.key translation
  | .forgot => cache.clear
  | _ => cache

/-- The cache to which the events of a log lead from an empty one. -/
def Cache.replay (capacity : Nat) (log : List Event) : Cache := log.foldl record ⟨capacity, []⟩

namespace Session

variable {σ : Type} {session later : Session σ} {pacer : Pacer} {request : Request}
  {requests : List Request} {key : String} {translation : Translation}

/-- Whether a registered translator has the answer for the request in one of its states, with
`none` for a failure. -/
def MayAnswer (session : Session σ) (request : Request) (answer : Option Translation) : Prop :=
  ∃ translator state, (request.options.provider, translator) ∈ session.translators ∧
    (translator request state).outcome.toOption = answer

/-- Whether a registered translator gave the translation for a request with the key since the
cache was last cleared. -/
def Returned (session : Session σ) (key : String) (translation : Translation) : Prop :=
  ∃ before request after, session.events = before ++ .called request (some translation) :: after ∧
    .forgot ∉ after ∧ request.key = key ∧ session.MayAnswer request (some translation)

/-- Whether the log accounts for the session: for its cache, and for every call, which went to a
translator with that answer when the cache did not have the key. -/
structure Accounted (session : Session σ) : Prop where
  cache_eq : session.cache = Cache.replay session.cache.capacity session.events
  called : ∀ before request answer after,
    session.events = before ++ .called request answer :: after →
      (Cache.replay session.cache.capacity before).find? request.key = none ∧
        session.MayAnswer request answer

/-! ## Translators -/

/-- Whether what the translators may answer they may still answer later. -/
def KeepsAnswers (session later : Session σ) : Prop :=
  ∀ request answer, session.MayAnswer request answer → later.MayAnswer request answer

theorem keepsAnswers_of_subset (h : session.translators ⊆ later.translators) :
    session.KeepsAnswers later := by
  rintro request answer ⟨translator, state, hmem, hanswer⟩
  exact ⟨translator, state, h hmem, hanswer⟩

theorem keepsAnswers_of_eq (h : later.translators = session.translators) :
    session.KeepsAnswers later :=
  keepsAnswers_of_subset (h ▸ List.Subset.refl _)

theorem mayAnswer_undisturbed {answer : Option Translation} :
    session.undisturbed.MayAnswer request answer ↔ session.MayAnswer request answer := by
  constructor
  · rintro ⟨_, state, hquiet, hanswer⟩
    obtain ⟨⟨provider, translator⟩, hmem, heq⟩ := List.mem_map.mp hquiet
    cases heq
    exact ⟨translator, state, hmem, hanswer⟩
  · rintro ⟨translator, state, hmem, hanswer⟩
    exact ⟨translator.quiet, state, List.mem_map_of_mem hmem, hanswer⟩

theorem Returned.mono (h : session.Returned key translation)
    (hgoes : GoesOn session.events later.events) (hkeeps : session.KeepsAnswers later) :
    later.Returned key translation := by
  -- The call stands in the longer log as well, with the added events behind it.
  obtain ⟨before, request, after, hevents, hforgot, hkey, hanswer⟩ := h
  obtain ⟨added, hlater, hadded⟩ := hgoes
  refine ⟨before, request, after ++ added, ?_, ?_, hkey, hkeeps _ _ hanswer⟩
  · rw [hlater, hevents, List.append_assoc, List.cons_append]
  · simp [hforgot, hadded]

theorem Returned.evolves {asks : Request → Prop} (h : session.Returned key translation)
    (hevolves : session.Evolves asks later) : later.Returned key translation :=
  h.mono hevolves.goesOn (keepsAnswers_of_eq hevolves.translators_eq)

/-! ## The log and the cache -/

theorem capacity_record (cache : Cache) (event : Event) :
    (cache.record event).capacity = cache.capacity := by
  unfold Cache.record
  split
  · exact Cache.capacity_set ..
  · rfl
  · rfl

theorem mem_of_mem_record {cache : Cache} {event : Event} {entry : String × Translation}
    (h : entry ∈ (cache.record event).entries) :
    (∃ request, event = .called request (some entry.2) ∧ request.key = entry.1) ∨
      (event ≠ .forgot ∧ entry ∈ cache.entries) := by
  match event with
  | .called request (some translation) =>
      rcases Cache.mem_of_mem_set h with rfl | hmem
      · exact Or.inl ⟨request, rfl, rfl⟩
      · exact Or.inr ⟨by simp, hmem⟩
  | .called request none => exact Or.inr ⟨by simp, h⟩
  | .forgot => cases h
  | .paused => exact Or.inr ⟨by simp, h⟩
  | .interrupted => exact Or.inr ⟨by simp, h⟩

/-- An entry that was not there at first was stored by a call, and nothing was cleared after. -/
theorem exists_called_of_mem_foldl {cache : Cache} {log : List Event}
    {entry : String × Translation} (h : entry ∈ (log.foldl Cache.record cache).entries) :
    (entry ∈ cache.entries ∧ .forgot ∉ log) ∨ ∃ before request after,
      log = before ++ .called request (some entry.2) :: after ∧ .forgot ∉ after ∧
        request.key = entry.1 := by
  induction log generalizing cache with
  | nil => exact Or.inl ⟨h, by simp⟩
  | cons event log ih =>
      rcases ih h with ⟨hmem, hforgot⟩ | ⟨before, request, after, rfl, hforgot, hkey⟩
      · rcases mem_of_mem_record hmem with ⟨request, rfl, hkey⟩ | ⟨hevent, hmem⟩
        · exact Or.inr ⟨[], request, log, rfl, hforgot, hkey⟩
        · exact Or.inl ⟨hmem, by simp [hforgot, hevent.symm]⟩
      · exact Or.inr ⟨event :: before, request, after, rfl, hforgot, hkey⟩

namespace Accounted

theorem of_fresh (hentries : session.cache.entries = []) (hevents : session.events = []) :
    session.Accounted := by
  constructor
  · rw [hevents, Cache.replay, List.foldl_nil, ← hentries]
  · simp [hevents]

/-- What is in the cache was given by a translator. -/
theorem returned_of_mem (h : session.Accounted)
    (hmem : (key, translation) ∈ session.cache.entries) : session.Returned key translation := by
  rw [h.cache_eq] at hmem
  rcases exists_called_of_mem_foldl hmem with
    ⟨hnil, -⟩ | ⟨before, request, after, hevents, hforgot, hkey⟩
  · cases hnil
  · exact ⟨before, request, after, hevents, hforgot, hkey, (h.called _ _ _ _ hevents).2⟩

/-! ## Steps -/

theorem of_events_eq (h : session.Accounted) (hcache : later.cache = session.cache)
    (hevents : later.events = session.events) (hkeeps : session.KeepsAnswers later) :
    later.Accounted := by
  constructor
  · rw [hcache, hevents]
    exact h.cache_eq
  · intro before request answer after hsplit
    rw [hevents] at hsplit
    rw [hcache]
    obtain ⟨hfind, hanswer⟩ := h.called _ _ _ _ hsplit
    exact ⟨hfind, hkeeps _ _ hanswer⟩

/-- One more event that is accounted for and does to the cache what it should. -/
theorem concat {event : Event} (h : session.Accounted)
    (hcache : later.cache = session.cache.record event)
    (hevents : later.events = session.events ++ [event])
    (htranslators : later.translators = session.translators)
    (hevent : ∀ request answer, event = .called request answer →
      session.cache.find? request.key = none ∧ session.MayAnswer request answer) :
    later.Accounted := by
  have hcapacity : later.cache.capacity = session.cache.capacity := by
    rw [hcache, capacity_record]
  have hkeeps := keepsAnswers_of_eq htranslators
  constructor
  · rw [hcapacity, hcache, hevents, Cache.replay, List.foldl_append]
    exact congrArg (Cache.record · event) h.cache_eq
  · intro before request answer after hsplit
    rw [hcapacity]
    rw [hevents] at hsplit
    -- The call is the new event, or one that was in the log before.
    rcases List.eq_nil_or_concat after with rfl | ⟨rest, last, rfl⟩
    · obtain ⟨hbefore, hlast⟩ := List.append_inj' hsplit rfl
      obtain ⟨hfind, hanswer⟩ := hevent request answer (List.singleton_inj.mp hlast)
      rw [← hbefore, ← h.cache_eq]
      exact ⟨hfind, hkeeps _ _ hanswer⟩
    · rw [List.concat_eq_append, ← List.cons_append, ← List.append_assoc] at hsplit
      obtain ⟨hbefore, -⟩ := List.append_inj' hsplit rfl
      obtain ⟨hfind, hanswer⟩ := h.called _ _ _ _ hbefore
      exact ⟨hfind, hkeeps _ _ hanswer⟩

theorem translate (h : session.Accounted) : (session.translate request).2.Accounted := by
  rcases translate_cases session request with
    ⟨_, -, heq⟩ | ⟨hfind, translator, htranslator, heq⟩ | ⟨-, -, heq⟩
  · rw [heq]
    exact h
  · rw [heq]
    refine h.concat ?_ rfl rfl ?_
    · simp only [ask]
      cases (translator request session.state).outcome <;> rfl
    · -- The translator was asked because the cache has no entry for the key.
      rintro _ _ ⟨rfl, rfl⟩
      exact ⟨hfind, translator, session.state, mem_of_lookup htranslator, rfl⟩
  · rw [heq]
    exact h

theorem awaitTurn (h : session.Accounted) : (session.awaitTurn pacer).2.2.Accounted := by
  rcases awaitTurn_cases session pacer with ⟨-, heq⟩ | ⟨-, -, -, heq⟩ | ⟨-, -, _, heq⟩
  · rw [heq]
    exact h
  · rw [heq]
    exact h.concat rfl rfl rfl (by simp)
  · rw [heq]
    exact h.concat rfl rfl rfl (by simp)

theorem clearCache (h : session.Accounted) : session.clearCache.Accounted :=
  h.concat rfl rfl rfl (by simp)

theorem register (h : session.Accounted) (provider : Provider) (translator : Translator σ) :
    (session.register provider translator).Accounted :=
  h.of_events_eq rfl rfl (keepsAnswers_of_subset (List.subset_cons_self ..))

theorem undisturbed (h : session.Accounted) : session.undisturbed.Accounted :=
  h.of_events_eq rfl rfl fun _ _ => mayAnswer_undisturbed.mpr

/-! ## Runs -/

theorem evolves {asks : Request → Prop} (h : session.Accounted)
    (hevolves : session.Evolves asks later) : later.Accounted := by
  induction hevolves with
  | refl => exact h
  | translate _ _ ih => exact ih.translate
  | awaitTurn _ _ ih => exact ih.awaitTurn

/-- What a translation hands out was given by a translator. -/
theorem returned_translate (h : session.Accounted)
    (houtcome : (session.translate request).1 = .ok translation) :
    (session.translate request).2.Returned request.key translation := by
  rcases translate_cases session request with
    ⟨cached, hfind, heq⟩ | ⟨-, translator, htranslator, heq⟩ | ⟨-, -, heq⟩
  · rw [heq] at houtcome ⊢
    cases houtcome
    exact h.returned_of_mem (Cache.mem_of_find? hfind)
  · rw [heq] at houtcome ⊢
    have hanswer : (translator request session.state).outcome = .ok translation := houtcome
    refine ⟨session.events, request, [], ?_, by simp, rfl, translator, session.state,
      mem_of_lookup htranslator, ?_⟩
    · simp [ask, hanswer, Except.toOption]
    · rw [hanswer]
      rfl
  · rw [heq] at houtcome
    cases houtcome

/-- What a run hands out was given by a translator. -/
theorem returned_of_outcome {index : Nat} (h : session.Accounted)
    (houtcome : (session.runFrom pacer requests).outcomes[index]? = some (.ok translation)) :
    ∃ request, requests[index]? = some request ∧
      (session.runFrom pacer requests).session.Returned request.key translation := by
  have hasks : ∀ request ∈ requests, True := fun _ _ => trivial
  obtain ⟨request, before, hrequest, hbefore, htranslate, hafter⟩ :=
    exists_translate_of_outcome hasks houtcome
  refine ⟨request, hrequest, ?_⟩
  exact ((h.evolves hbefore).returned_translate htranslate).evolves hafter

end Accounted

/-! ## Batches -/

/-- Whether every result of a batch stands in for a failure or was given by a translator. -/
def ReturnedBatch (session : Session σ) (options : Options) (texts : List String)
    (translations : List Translation) : Prop :=
  ∀ (index : Nat) (translation : Translation), translations[index]? = some translation →
    ∃ text, texts[index]? = some text ∧ (translation = options.passthrough text ∨
      session.Returned (Cache.key text options.target) translation)

variable {options : Options} {texts : List String}

theorem evolves_translateBatch (session : Session σ) (options : Options) (texts : List String) :
    session.Evolves (fun _ => True) (session.translateBatch options texts).2 :=
  evolves_runFrom _ _ fun _ _ => trivial

namespace Accounted

theorem returnedBatch (h : session.Accounted) :
    (session.translateBatch options texts).2.ReturnedBatch options texts
      (session.translateBatch options texts).1 := by
  intro index translation hindex
  simp only [translateBatch, orPassthrough, List.getElem?_map, Option.map_eq_some_iff,
    Prod.exists, List.getElem?_zip_eq_some] at hindex
  obtain ⟨text, outcome, ⟨htext, houtcome⟩, rfl⟩ := hindex
  refine ⟨text, htext, ?_⟩
  cases outcome with
  | error failure => exact Or.inl rfl
  | ok translation =>
      right
      obtain ⟨request, hrequest, hreturned⟩ := h.returned_of_outcome houtcome
      rw [List.getElem?_map, htext] at hrequest
      cases hrequest
      exact hreturned

theorem translateWholeBatch (h : session.Accounted) :
    (session.translateWholeBatch options texts).2.Accounted := by
  have hquiet := h.undisturbed.evolves (evolves_translateBatch session.undisturbed options texts)
  rw [translateBatch_undisturbed_eq] at hquiet
  exact hquiet.of_events_eq rfl rfl fun _ _ => mayAnswer_undisturbed.mp

theorem returnedBatch_whole (h : session.Accounted) :
    (session.translateWholeBatch options texts).2.ReturnedBatch options texts
      (session.translateWholeBatch options texts).1 := by
  have hquiet : (session.undisturbed.translateBatch options texts).2.ReturnedBatch options texts
      (session.undisturbed.translateBatch options texts).1 := h.undisturbed.returnedBatch
  rw [translateBatch_undisturbed_eq] at hquiet
  intro index translation hindex
  obtain ⟨text, htext, hpassthrough | hreturned⟩ := hquiet index _ hindex
  · exact ⟨text, htext, Or.inl hpassthrough⟩
  · exact ⟨text, htext, Or.inr (hreturned.mono (.refl _) fun _ _ => mayAnswer_undisturbed.mp)⟩

end Accounted

end Session

end Marginalia
