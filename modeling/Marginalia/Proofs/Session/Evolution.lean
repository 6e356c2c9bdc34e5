import Marginalia.Proofs.Cache.Entries
import Marginalia.Translation.Session

/-! # How a session evolves

Whatever a run does to a session is a chain of two kinds of steps: a request is translated, or a
turn is awaited. A step of either kind keeps the translators, the pauses and the capacity of the
cache. Every outcome of a run is the outcome of one translation in the chain.
-/

namespace Marginalia.Session

variable {σ : Type} {session : Session σ} {pacer : Pacer} {request : Request}
  {requests : List Request}

/-! ## One step -/

theorem translate_of_find? {translation : Translation}
    (h : session.cache.find? request.key = some translation) :
    session.translate request = (.ok translation, session) := by
  simp only [translate, h]

/-- A translation comes from the cache; or else the translator of the provider is asked, and
without one the translation fails. -/
theorem translate_cases (session : Session σ) (request : Request) :
    (∃ translation, session.cache.find? request.key = some translation ∧
      session.translate request = (.ok translation, session)) ∨
    (session.cache.find? request.key = none ∧
      ∃ translator, session.translator? request.options.provider = some translator ∧
        session.translate request = session.ask translator request) ∨
    (session.cache.find? request.key = none ∧
      session.translator? request.options.provider = none ∧
      session.translate request =
        (.error (.setting (.unregistered request.options.provider)), session)) := by
  cases hfind : session.cache.find? request.key with
  | some translation => exact Or.inl ⟨translation, rfl, translate_of_find? hfind⟩
  | none =>
      right
      cases htranslator : session.translator? request.options.provider with
      | some translator =>
          exact Or.inl ⟨rfl, translator, rfl, by simp only [translate, hfind, htranslator]⟩
      | none => exact Or.inr ⟨rfl, rfl, by simp only [translate, hfind, htranslator]⟩

/-- The turn comes without a pause or after one; a pause in which the session is cancelled cuts
the turn, and so does one that finds it cancelled. -/
theorem awaitTurn_cases (session : Session σ) (pacer : Pacer) :
    (¬ (0 < pacer.requests ∧ 0 < session.delay) ∧
      session.awaitTurn pacer = (true, ⟨pacer.requests + 1⟩, session)) ∨
    ((0 < pacer.requests ∧ 0 < session.delay) ∧ session.cancelled = false ∧
      (session.pause session.state).1 = false ∧
      session.awaitTurn pacer = (true, ⟨pacer.requests + 1⟩,
        { session with
          state := (session.pause session.state).2
          events := session.events ++ [.paused] })) ∨
    ((0 < pacer.requests ∧ 0 < session.delay) ∧
      (session.cancelled = true ∨ (session.pause session.state).1 = true) ∧
      ∃ state, session.awaitTurn pacer = (false, pacer,
        { session with
          state
          cancelled := true
          events := session.events ++ [.interrupted] })) := by
  by_cases hwait : 0 < pacer.requests ∧ 0 < session.delay
  · right
    cases hcancelled : session.cancelled with
    | true =>
        refine Or.inr ⟨hwait, Or.inl rfl, session.state, ?_⟩
        simp [awaitTurn, takePause, hwait, hcancelled]
    | false =>
        cases hpause : (session.pause session.state).1 with
        | true =>
            refine Or.inr ⟨hwait, Or.inr rfl, (session.pause session.state).2, ?_⟩
            simp [awaitTurn, takePause, hwait, hcancelled, hpause]
        | false =>
            refine Or.inl ⟨hwait, rfl, rfl, ?_⟩
            simp [awaitTurn, takePause, hwait, hcancelled, hpause]
  · left
    refine ⟨hwait, ?_⟩
    simp [awaitTurn, hwait]

/-- A request of a run finds the session cancelled, or in the cache what it asks for, or waits
for its turn; and then the turn is cut, or the request is translated. -/
theorem translatePaced_cases (session : Session σ) (pacer : Pacer) (request : Request) :
    (session.cancelled = true ∧ session.translatePaced pacer request = (none, pacer, session)) ∨
    (session.cancelled = false ∧ ∃ translation,
      session.cache.find? request.key = some translation ∧
      session.translatePaced pacer request = (some (.ok translation), pacer, session)) ∨
    (session.cancelled = false ∧ session.cache.find? request.key = none ∧
      ∃ later, session.awaitTurn pacer = (false, pacer, later) ∧
        session.translatePaced pacer request = (none, pacer, later)) ∨
    (session.cancelled = false ∧ session.cache.find? request.key = none ∧
      ∃ later, session.awaitTurn pacer = (true, ⟨pacer.requests + 1⟩, later) ∧
        session.translatePaced pacer request = (some (later.translate request).1,
          ⟨pacer.requests + 1⟩, (later.translate request).2)) := by
  cases hcancelled : session.cancelled with
  | true => exact Or.inl ⟨rfl, by simp only [translatePaced, hcancelled, if_true]⟩
  | false =>
      right
      cases hfind : session.cache.find? request.key with
      | some translation =>
          refine Or.inl ⟨rfl, translation, rfl, ?_⟩
          simp [translatePaced, hcancelled, Cache.contains_eq, hfind, translate_of_find? hfind]
      | none =>
          right
          rcases awaitTurn_cases session pacer with
            ⟨-, hturn⟩ | ⟨-, -, -, hturn⟩ | ⟨-, -, state, hturn⟩
          · refine Or.inr ⟨rfl, rfl, _, hturn, ?_⟩
            simp [translatePaced, hcancelled, Cache.contains_eq, hfind, hturn]
          · refine Or.inr ⟨rfl, rfl, _, hturn, ?_⟩
            simp [translatePaced, hcancelled, Cache.contains_eq, hfind, hturn]
          · refine Or.inl ⟨rfl, rfl, _, hturn, ?_⟩
            simp [translatePaced, hcancelled, Cache.contains_eq, hfind, hturn]

/-- A request that is handled is answered by the cache, or translated when its turn has come. -/
theorem translatePaced_eq_some {outcome : Except Failure Translation} {after : Pacer × Session σ}
    (h : session.translatePaced pacer request = (some outcome, after)) :
    session.cancelled = false ∧
    ((∃ translation, session.cache.find? request.key = some translation ∧
        outcome = .ok translation ∧ after = (pacer, session)) ∨
      (session.cache.find? request.key = none ∧
        ∃ later, session.awaitTurn pacer = (true, ⟨pacer.requests + 1⟩, later) ∧
          outcome = (later.translate request).1 ∧
          after = (⟨pacer.requests + 1⟩, (later.translate request).2))) := by
  rcases translatePaced_cases session pacer request with
    ⟨-, heq⟩ | ⟨hcancelled, translation, hfind, heq⟩ | ⟨-, -, _, -, heq⟩ |
      ⟨hcancelled, hfind, later, hturn, heq⟩
  · rw [heq] at h
    cases h
  · rw [heq] at h
    cases h
    exact ⟨hcancelled, Or.inl ⟨translation, hfind, rfl, rfl⟩⟩
  · rw [heq] at h
    cases h
  · rw [heq] at h
    cases h
    exact ⟨hcancelled, Or.inr ⟨hfind, later, hturn, rfl, rfl⟩⟩

/-! ## Many steps -/

/-- The sessions to which turns and the translations of certain requests lead, in any number and
order. -/
inductive Evolves (session : Session σ) (asks : Request → Prop) : Session σ → Prop
  | refl : Evolves session asks session
  | translate {later : Session σ} {request : Request} (hasks : asks request)
    (h : Evolves session asks later) : Evolves session asks (later.translate request).2
  | awaitTurn {later : Session σ} (pacer : Pacer) (h : Evolves session asks later) :
    Evolves session asks (later.awaitTurn pacer).2.2

variable {asks : Request → Prop} {outcome : Except Failure Translation}
  {after : Pacer × Session σ}

theorem Evolves.trans {first second third : Session σ} (h : first.Evolves asks second)
    (hnext : second.Evolves asks third) : first.Evolves asks third := by
  induction hnext with
  | refl => exact h
  | translate hasks _ ih => exact ih.translate hasks
  | awaitTurn pacer _ ih => exact ih.awaitTurn pacer

theorem evolves_of_awaitTurn {came : Bool} (asks : Request → Prop)
    (h : session.awaitTurn pacer = (came, after)) : session.Evolves asks after.2 := by
  have hturn : session.Evolves asks (session.awaitTurn pacer).2.2 := Evolves.refl.awaitTurn pacer
  rwa [h] at hturn

/-- The outcome for a request of a run is that of its translation, at once or after the turn. -/
theorem exists_translate_of_translatePaced (asks : Request → Prop)
    (h : session.translatePaced pacer request = (some outcome, after)) :
    ∃ before, session.Evolves asks before ∧ before.translate request = (outcome, after.2) := by
  obtain ⟨-, ⟨_, hfind, rfl, rfl⟩ | ⟨-, later, hturn, rfl, rfl⟩⟩ := translatePaced_eq_some h
  · exact ⟨session, .refl, translate_of_find? hfind⟩
  · exact ⟨later, evolves_of_awaitTurn asks hturn, rfl⟩

theorem evolves_translatePaced (session : Session σ) (pacer : Pacer) (hasks : asks request) :
    session.Evolves asks (session.translatePaced pacer request).2.2 := by
  rcases translatePaced_cases session pacer request with
    ⟨-, heq⟩ | ⟨-, _, -, heq⟩ | ⟨-, -, _, hturn, heq⟩ | ⟨-, -, _, hturn, heq⟩
  · rw [heq]
    exact .refl
  · rw [heq]
    exact .refl
  · rw [heq]
    exact evolves_of_awaitTurn asks hturn
  · rw [heq]
    exact (evolves_of_awaitTurn asks hturn).translate hasks

theorem runFrom_cons_of_none (h : session.translatePaced pacer request = (none, after)) :
    session.runFrom pacer (request :: requests) = ⟨[], after.1, after.2⟩ := by
  simp only [runFrom, h]

theorem runFrom_cons_of_some (h : session.translatePaced pacer request = (some outcome, after)) :
    session.runFrom pacer (request :: requests) =
      { after.2.runFrom after.1 requests with
        outcomes := outcome :: (after.2.runFrom after.1 requests).outcomes } := by
  simp only [runFrom, h]

theorem evolves_runFrom (session : Session σ) (pacer : Pacer)
    (hasks : ∀ request ∈ requests, asks request) :
    session.Evolves asks (session.runFrom pacer requests).session := by
  induction requests generalizing session pacer with
  | nil => exact .refl
  | cons request requests ih =>
      obtain ⟨hfirst, hrest⟩ := List.forall_mem_cons.mp hasks
      have hstep := evolves_translatePaced session pacer hfirst
      rcases hpaced : session.translatePaced pacer request with ⟨_ | outcome, after⟩
      · rw [hpaced] at hstep
        rw [runFrom_cons_of_none hpaced]
        exact hstep
      · rw [hpaced] at hstep
        rw [runFrom_cons_of_some hpaced]
        exact hstep.trans (ih after.2 after.1 hrest)

/-- An outcome of a run is the outcome of its request in a session on the way. -/
theorem exists_translate_of_outcome {index : Nat} (hasks : ∀ request ∈ requests, asks request)
    (h : (session.runFrom pacer requests).outcomes[index]? = some outcome) :
    ∃ request before, requests[index]? = some request ∧ session.Evolves asks before ∧
      (before.translate request).1 = outcome ∧
      (before.translate request).2.Evolves asks (session.runFrom pacer requests).session := by
  induction requests generalizing session pacer index with
  | nil => simp [runFrom] at h
  | cons request requests ih =>
      obtain ⟨hfirst, hrest⟩ := List.forall_mem_cons.mp hasks
      rcases hpaced : session.translatePaced pacer request with ⟨_ | first, after⟩
      · simp [runFrom_cons_of_none hpaced] at h
      · rw [runFrom_cons_of_some hpaced] at h ⊢
        obtain ⟨before, hbefore, htranslate⟩ := exists_translate_of_translatePaced asks hpaced
        have hafter : session.Evolves asks (before.translate request).2 := hbefore.translate hfirst
        cases index with
        | zero =>
            cases h
            refine ⟨request, before, rfl, hbefore, ?_, ?_⟩
            · rw [htranslate]
            · rw [htranslate]
              exact evolves_runFrom _ _ hrest
        | succ index =>
            obtain ⟨later, middle, hlater, hmiddle, houtcome, hfinal⟩ := ih hrest h
            rw [htranslate] at hafter
            exact ⟨later, middle, hlater, hafter.trans hmiddle, houtcome, hfinal⟩

/-! ## What stays -/

theorem translators_translate :
    (session.translate request).2.translators = session.translators := by
  rcases translate_cases session request with ⟨_, -, heq⟩ | ⟨-, _, -, heq⟩ | ⟨-, -, heq⟩
  · rw [heq]
  · rw [heq]
    rfl
  · rw [heq]

theorem translators_awaitTurn :
    (session.awaitTurn pacer).2.2.translators = session.translators := by
  rcases awaitTurn_cases session pacer with ⟨-, heq⟩ | ⟨-, -, -, heq⟩ | ⟨-, -, _, heq⟩ <;> rw [heq]

theorem Evolves.translators_eq {later : Session σ} (h : session.Evolves asks later) :
    later.translators = session.translators := by
  induction h with
  | refl => rfl
  | translate _ _ ih => exact translators_translate.trans ih
  | awaitTurn pacer _ ih => exact translators_awaitTurn.trans ih

/-- Whether a log goes on from another one without a step that forgets. -/
def GoesOn (log later : List Event) : Prop :=
  ∃ added, later = log ++ added ∧ .forgot ∉ added

theorem GoesOn.refl (log : List Event) : GoesOn log log := ⟨[], by simp⟩

theorem GoesOn.trans {first second third : List Event} (h : GoesOn first second)
    (hnext : GoesOn second third) : GoesOn first third := by
  obtain ⟨added, rfl, hadded⟩ := h
  obtain ⟨more, rfl, hmore⟩ := hnext
  exact ⟨added ++ more, List.append_assoc .., by simp [hadded, hmore]⟩

theorem goesOn_append {event : Event} (log : List Event) (h : event ≠ .forgot) :
    GoesOn log (log ++ [event]) :=
  ⟨[event], rfl, by simpa using h.symm⟩

theorem goesOn_translate : GoesOn session.events (session.translate request).2.events := by
  rcases translate_cases session request with ⟨_, -, heq⟩ | ⟨-, _, -, heq⟩ | ⟨-, -, heq⟩
  · rw [heq]
    exact .refl _
  · rw [heq]
    exact goesOn_append _ (by simp)
  · rw [heq]
    exact .refl _

theorem goesOn_awaitTurn : GoesOn session.events (session.awaitTurn pacer).2.2.events := by
  rcases awaitTurn_cases session pacer with ⟨-, heq⟩ | ⟨-, -, -, heq⟩ | ⟨-, -, _, heq⟩
  · rw [heq]
    exact .refl _
  · rw [heq]
    exact goesOn_append _ (by simp)
  · rw [heq]
    exact goesOn_append _ (by simp)

/-- A session adds to the end of its log, and does not forget on the way. -/
theorem Evolves.goesOn {later : Session σ} (h : session.Evolves asks later) :
    GoesOn session.events later.events := by
  induction h with
  | refl => exact .refl _
  | translate _ _ ih => exact ih.trans goesOn_translate
  | awaitTurn pacer _ ih => exact ih.trans goesOn_awaitTurn

end Marginalia.Session
