import Marginalia.Proofs.Session.Evolution

/-! # Cancelled runs

A session and the session in which nothing cancels do the same with a request as long as the
former handles it. So a run under cancellation is the whole run over the first of its requests:
the ones that were handled before the cancellation was seen.
-/

namespace Marginalia

/-- The request of a call and its answer; other events are no calls. -/
def Event.call? : Event → Option (Request × Option Translation)
  | .called request answer => some (request, answer)
  | _ => none

/-- The translator that does the same and never cancels. -/
def Translator.quiet {σ : Type} (translator : Translator σ) : Translator σ :=
  fun request state => { translator request state with cancels := false }

namespace Session

variable {σ : Type} {session : Session σ} {pacer : Pacer} {request : Request}
  {requests first : List Request} {outcome : Except Failure Translation}
  {after : Pacer × Session σ} {asks : Request → Prop}

/-- The calls of translators, in order, with their answers. -/
def calls (session : Session σ) : List (Request × Option Translation) :=
  session.events.filterMap Event.call?

theorem Evolves.prefix_calls {later : Session σ} (h : session.Evolves asks later) :
    session.calls <+: later.calls := by
  obtain ⟨added, hadded, -⟩ := h.goesOn
  rw [calls, calls, hadded]
  exact (List.prefix_append session.events added).filterMap Event.call?

/-! ## Where a run ends -/

theorem length_runFrom_le (session : Session σ) (pacer : Pacer) (requests : List Request) :
    (session.runFrom pacer requests).outcomes.length ≤ requests.length := by
  induction requests generalizing session pacer with
  | nil => simp [runFrom]
  | cons request requests ih =>
      rcases hpaced : session.translatePaced pacer request with ⟨_ | outcome, after⟩
      · simp [runFrom_cons_of_none hpaced]
      · rw [runFrom_cons_of_some hpaced]
        simpa using ih after.2 after.1

theorem translatePaced_of_cancelled (h : session.cancelled = true) :
    session.translatePaced pacer request = (none, pacer, session) := by
  simp only [translatePaced, h, if_true]

theorem runFrom_of_cancelled (h : session.cancelled = true) :
    session.runFrom pacer requests = ⟨[], pacer, session⟩ := by
  cases requests with
  | nil => rfl
  | cons request requests => exact runFrom_cons_of_none (translatePaced_of_cancelled h)

/-- A request is left out by a session that is cancelled or by one whose pause is cut. -/
theorem translatePaced_eq_none (h : session.translatePaced pacer request = (none, after)) :
    (session.cancelled = true ∧ after = (pacer, session)) ∨
    (session.cancelled = false ∧ ∃ state, after = (pacer,
      { session with state, cancelled := true, events := session.events ++ [.interrupted] })) := by
  rcases translatePaced_cases session pacer request with
    ⟨hcancelled, heq⟩ | ⟨-, _, -, heq⟩ | ⟨hcancelled, -, later, hturn, heq⟩ | ⟨-, -, _, -, heq⟩
  · rw [heq] at h
    cases h
    exact Or.inl ⟨hcancelled, rfl⟩
  · rw [heq] at h
    cases h
  · rw [heq] at h
    cases h
    rcases awaitTurn_cases session pacer with
      ⟨-, hcame⟩ | ⟨-, -, -, hcame⟩ | ⟨-, -, state, hcut⟩
    · rw [hcame] at hturn
      cases hturn
    · rw [hcame] at hturn
      cases hturn
    · rw [hcut] at hturn
      cases hturn
      exact Or.inr ⟨hcancelled, state, rfl⟩
  · rw [heq] at h
    cases h

theorem cancelled_of_translatePaced (h : session.translatePaced pacer request = (none, after)) :
    after.2.cancelled = true := by
  rcases translatePaced_eq_none h with ⟨hcancelled, rfl⟩ | ⟨-, _, rfl⟩
  · exact hcancelled
  · rfl

/-- A run that leaves a request out ends in a cancelled session. -/
theorem length_runFrom (h : (session.runFrom pacer requests).session.cancelled = false) :
    (session.runFrom pacer requests).outcomes.length = requests.length := by
  induction requests generalizing session pacer with
  | nil => rfl
  | cons request requests ih =>
      rcases hpaced : session.translatePaced pacer request with ⟨_ | outcome, after⟩
      · rw [runFrom_cons_of_none hpaced, cancelled_of_translatePaced hpaced] at h
        cases h
      · rw [runFrom_cons_of_some hpaced] at h ⊢
        simpa using ih h

/-- Once a session is cancelled the run over further requests is over. -/
theorem runFrom_append_of_cancelled (second : List Request)
    (h : (session.runFrom pacer first).session.cancelled = true) :
    session.runFrom pacer (first ++ second) = session.runFrom pacer first := by
  induction first generalizing session pacer with
  | nil => exact runFrom_of_cancelled h
  | cons request first ih =>
      rcases hpaced : session.translatePaced pacer request with ⟨_ | outcome, after⟩
      · rw [List.cons_append, runFrom_cons_of_none hpaced, runFrom_cons_of_none hpaced]
      · rw [runFrom_cons_of_some hpaced] at h
        rw [List.cons_append, runFrom_cons_of_some hpaced, runFrom_cons_of_some hpaced, ih h]

/-- A run with another one behind it. -/
def Run.followedBy (run next : Run σ) : Run σ :=
  { next with outcomes := run.outcomes ++ next.outcomes }

/-- A run that handles all of its first requests goes on with the others. -/
theorem runFrom_append (second : List Request)
    (h : (session.runFrom pacer first).outcomes.length = first.length) :
    session.runFrom pacer (first ++ second) = (session.runFrom pacer first).followedBy
      ((session.runFrom pacer first).session.runFrom
        (session.runFrom pacer first).pacer second) := by
  induction first generalizing session pacer with
  | nil => rfl
  | cons request first ih =>
      rcases hpaced : session.translatePaced pacer request with ⟨_ | outcome, after⟩
      · simp [runFrom_cons_of_none hpaced] at h
      · rw [runFrom_cons_of_some hpaced] at h
        rw [List.cons_append, runFrom_cons_of_some hpaced, runFrom_cons_of_some hpaced,
          ih (by simpa using h)]
        rfl

/-! ## The session in which nothing cancels -/

theorem lookup_map_quiet (translators : List (Provider × Translator σ)) (provider : Provider) :
    (translators.map fun entry => (entry.1, entry.2.quiet)).lookup provider =
      (translators.lookup provider).map Translator.quiet := by
  induction translators with
  | nil => rfl
  | cons entry translators ih =>
      obtain ⟨name, translator⟩ := entry
      cases hentry : provider == name <;> simp [List.lookup_cons, hentry, ih]

theorem translator?_undisturbed (session : Session σ) (provider : Provider) :
    session.undisturbed.translator? provider =
      (session.translator? provider).map Translator.quiet :=
  lookup_map_quiet session.translators provider

theorem translate_undisturbed (session : Session σ) (request : Request) :
    session.undisturbed.translate request =
      ((session.translate request).1, (session.translate request).2.undisturbed) := by
  have htranslator := translator?_undisturbed session request.options.provider
  have hcache : session.undisturbed.cache = session.cache := rfl
  unfold translate
  rw [htranslator, hcache]
  cases session.cache.find? request.key with
  | some translation => rfl
  | none => cases session.translator? request.options.provider <;> rfl

/-! ## Runs that go through with it -/

theorem awaitTurn_undisturbed_eq_sitOutTurn (session : Session σ) (pacer : Pacer) :
    session.undisturbed.awaitTurn pacer =
      (true, (session.sitOutTurn pacer).1, (session.sitOutTurn pacer).2.undisturbed) := by
  unfold awaitTurn sitOutTurn
  have hdelay : session.undisturbed.delay = session.delay := rfl
  rw [hdelay]
  split <;> rfl

/-- A turn that comes is sat out. -/
theorem sitOutTurn_of_awaitTurn (h : session.awaitTurn pacer = (true, after)) :
    session.sitOutTurn pacer = after := by
  rcases awaitTurn_cases session pacer with
    ⟨hwait, hcame⟩ | ⟨hwait, hcancelled, hpause, hcame⟩ | ⟨-, -, _, hcut⟩
  · rw [hcame] at h
    cases h
    simp [sitOutTurn, hwait]
  · rw [hcame] at h
    cases h
    simp [sitOutTurn, hwait, hpause, hcancelled]
  · rw [hcut] at h
    cases h

/-- The step: a request is handled, cancelled or not, as where nothing cancels. -/
theorem translatePaced_undisturbed_eq (session : Session σ) (pacer : Pacer) (request : Request) :
    session.undisturbed.translatePaced pacer request =
      let (outcome, pacer, later) := session.translateRegardless pacer request
      (some outcome, pacer, later.undisturbed) := by
  have hcache : session.undisturbed.cache = session.cache := rfl
  have hquiet : session.undisturbed.cancelled = false := rfl
  unfold translatePaced translateRegardless
  rw [hcache, hquiet, awaitTurn_undisturbed_eq_sitOutTurn]
  cases session.cache.contains request.key <;> simp [translate_undisturbed]

/-- The run: so are all requests. -/
theorem runFrom_undisturbed_eq (session : Session σ) (pacer : Pacer) (requests : List Request) :
    let whole := session.runWholeFrom pacer requests
    session.undisturbed.runFrom pacer requests =
      { whole with session := whole.session.undisturbed } := by
  induction requests generalizing session pacer with
  | nil => rfl
  | cons request requests ih =>
      rw [runFrom_cons_of_some (translatePaced_undisturbed_eq session pacer request), ih]
      rfl

theorem translateBatch_undisturbed_eq (session : Session σ) (options : Options)
    (texts : List String) :
    session.undisturbed.translateBatch options texts =
      ((session.translateWholeBatch options texts).1,
        (session.translateWholeBatch options texts).2.undisturbed) := by
  rw [translateBatch, run, runFrom_undisturbed_eq]
  rfl

/-- What is handled before a cancellation is seen is handled the same by a run that goes through. -/
theorem translateRegardless_eq (h : session.translatePaced pacer request = (some outcome, after)) :
    session.translateRegardless pacer request = (outcome, after) := by
  obtain ⟨-, ⟨_, hfind, rfl, rfl⟩ | ⟨hfind, later, hturn, rfl, rfl⟩⟩ := translatePaced_eq_some h
  · simp [translateRegardless, Cache.contains_eq, hfind, translate_of_find? hfind]
  · simp [translateRegardless, Cache.contains_eq, hfind, sitOutTurn_of_awaitTurn hturn]

/-- What a session handles it handles as if nothing could cancel. -/
theorem translatePaced_undisturbed
    (h : session.translatePaced pacer request = (some outcome, after)) :
    session.undisturbed.translatePaced pacer request =
      (some outcome, after.1, after.2.undisturbed) := by
  rw [translatePaced_undisturbed_eq, translateRegardless_eq h]

theorem cancelled_translate (h : session.cancelled = true) :
    (session.translate request).2.cancelled = true := by
  rcases translate_cases session request with ⟨_, -, heq⟩ | ⟨-, _, -, heq⟩ | ⟨-, -, heq⟩
  · rw [heq]
    exact h
  · rw [heq]
    exact Bool.or_eq_true_iff.mpr (Or.inl h)
  · rw [heq]
    exact h

/-- After a turn that was sat out a session is cancelled if it was before or the turn would have
been cut. -/
theorem cancelled_sitOutTurn (session : Session σ) (pacer : Pacer) :
    (session.sitOutTurn pacer).2.cancelled =
      (session.cancelled || !(session.awaitTurn pacer).1) := by
  rcases awaitTurn_cases session pacer with
    ⟨hwait, heq⟩ | ⟨hwait, hcancelled, hpause, heq⟩ | ⟨hwait, hcut, _, heq⟩
  · rw [heq]
    simp [sitOutTurn, hwait]
  · rw [heq]
    simp [sitOutTurn, hwait, hcancelled, hpause]
  · rw [heq]
    simpa [sitOutTurn, hwait] using hcut

theorem cancelled_translateRegardless
    (h : session.cancelled = true ∨
      session.cache.find? request.key = none ∧ (session.awaitTurn pacer).1 = false) :
    (session.translateRegardless pacer request).2.2.cancelled = true := by
  unfold translateRegardless
  apply cancelled_translate
  split
  next hcontains =>
      rcases h with hcancelled | ⟨hfind, -⟩
      · exact hcancelled
      · simp [Cache.contains_eq, hfind] at hcontains
  next =>
      rw [cancelled_sitOutTurn]
      rcases h with hcancelled | ⟨-, hcut⟩
      · simp [hcancelled]
      · simp [hcut]

theorem cancelled_runWholeFrom_of_cancelled (h : session.cancelled = true) :
    (session.runWholeFrom pacer requests).session.cancelled = true := by
  induction requests generalizing session pacer with
  | nil => exact h
  | cons request requests ih => exact ih (cancelled_translateRegardless (Or.inl h))

/-- A run that goes through leaves the session cancelled where one that heeds the cancellation
does. -/
theorem cancelled_runWholeFrom (session : Session σ) (pacer : Pacer) (requests : List Request) :
    (session.runWholeFrom pacer requests).session.cancelled =
      (session.runFrom pacer requests).session.cancelled := by
  induction requests generalizing session pacer with
  | nil => rfl
  | cons request requests ih =>
      rcases hpaced : session.translatePaced pacer request with ⟨_ | outcome, after⟩
      · rw [runFrom_cons_of_none hpaced, cancelled_of_translatePaced hpaced, runWholeFrom]
        apply cancelled_runWholeFrom_of_cancelled
        apply cancelled_translateRegardless
        rcases translatePaced_cases session pacer request with
          ⟨hcancelled, -⟩ | ⟨-, _, -, heq⟩ | ⟨-, hfind, _, hturn, -⟩ | ⟨-, -, _, -, heq⟩
        · exact Or.inl hcancelled
        · rw [heq] at hpaced
          cases hpaced
        · exact Or.inr ⟨hfind, congrArg Prod.fst hturn⟩
        · rw [heq] at hpaced
          cases hpaced
      · rw [runFrom_cons_of_some hpaced, runWholeFrom, translateRegardless_eq hpaced]
        exact ih after.2 after.1

theorem translators_sitOutTurn :
    (session.sitOutTurn pacer).2.translators = session.translators := by
  unfold sitOutTurn
  split <;> rfl

theorem translators_translateRegardless :
    (session.translateRegardless pacer request).2.2.translators = session.translators := by
  unfold translateRegardless
  apply translators_translate.trans
  split
  · rfl
  · exact translators_sitOutTurn

theorem translators_runWholeFrom (session : Session σ) (pacer : Pacer) (requests : List Request) :
    (session.runWholeFrom pacer requests).session.translators = session.translators := by
  induction requests generalizing session pacer with
  | nil => rfl
  | cons request requests ih => exact (ih _ _).trans translators_translateRegardless

/-! ## The run that nothing cancels -/

theorem undisturbed_undisturbed (session : Session σ) :
    session.undisturbed.undisturbed = session.undisturbed := by
  unfold undisturbed
  simp [Function.comp_def]

/-- Where nothing cancels nothing ever will. -/
theorem Evolves.undisturbed_eq {later : Session σ} (h : session.undisturbed.Evolves asks later) :
    later.undisturbed = later := by
  induction h with
  | refl => exact undisturbed_undisturbed session
  | @translate later request _ _ ih =>
      have htranslate := translate_undisturbed later request
      rw [ih] at htranslate
      exact (congrArg Prod.snd htranslate).symm
  | @awaitTurn later pacer _ ih =>
      have hturn := awaitTurn_undisturbed_eq_sitOutTurn later pacer
      rw [ih] at hturn
      rw [hturn]
      exact undisturbed_undisturbed _

theorem length_runFrom_undisturbed (session : Session σ) (pacer : Pacer)
    (requests : List Request) :
    (session.undisturbed.runFrom pacer requests).outcomes.length = requests.length := by
  have hevolves : session.undisturbed.Evolves (· ∈ requests)
      (session.undisturbed.runFrom pacer requests).session :=
    evolves_runFrom _ _ fun _ hmem => hmem
  apply length_runFrom
  rw [← hevolves.undisturbed_eq]
  rfl

/-- A run handles its requests as the session in which nothing cancels handles those of them
that it does handle. -/
theorem runFrom_take_undisturbed (session : Session σ) (pacer : Pacer) (requests : List Request) :
    let run := session.runFrom pacer requests
    let part := session.undisturbed.runFrom pacer (requests.take run.outcomes.length)
    part.outcomes = run.outcomes ∧ part.session.cache = run.session.cache ∧
      part.session.calls = run.session.calls := by
  induction requests generalizing session pacer with
  | nil => exact ⟨rfl, rfl, rfl⟩
  | cons request requests ih =>
      rcases hpaced : session.translatePaced pacer request with ⟨_ | outcome, after⟩
      · rw [runFrom_cons_of_none hpaced]
        rcases translatePaced_eq_none hpaced with ⟨-, rfl⟩ | ⟨-, _, rfl⟩
        · exact ⟨rfl, rfl, rfl⟩
        · refine ⟨rfl, rfl, ?_⟩
          simp [calls, undisturbed, runFrom, Event.call?]
      · rw [runFrom_cons_of_some hpaced]
        simp only [List.length_cons, List.take_succ_cons]
        rw [runFrom_cons_of_some (translatePaced_undisturbed hpaced)]
        obtain ⟨houtcomes, hcache, hcalls⟩ := ih after.2 after.1
        exact ⟨congrArg (outcome :: ·) houtcomes, hcache, hcalls⟩

/-- The whole run goes on from where it was after its first requests. -/
theorem runFrom_undisturbed_take_append (session : Session σ) (pacer : Pacer)
    (requests : List Request) (count : Nat) :
    let part := session.undisturbed.runFrom pacer (requests.take count)
    session.undisturbed.runFrom pacer requests =
      part.followedBy (part.session.runFrom part.pacer (requests.drop count)) := by
  have h := runFrom_append (requests.drop count)
    (length_runFrom_undisturbed session pacer (requests.take count))
  rwa [List.take_append_drop] at h

/-- The outcomes of a run are the first ones of the whole run. -/
theorem outcomes_eq_take (session : Session σ) (pacer : Pacer) (requests : List Request) :
    (session.runFrom pacer requests).outcomes =
      (session.undisturbed.runFrom pacer requests).outcomes.take
        (session.runFrom pacer requests).outcomes.length := by
  obtain ⟨hpart, -, -⟩ := runFrom_take_undisturbed session pacer requests
  rw [runFrom_undisturbed_take_append session pacer requests
    (session.runFrom pacer requests).outcomes.length]
  simp only [Run.followedBy, hpart, List.take_left]

theorem prefix_calls_undisturbed (session : Session σ) (pacer : Pacer) (requests : List Request)
    (count : Nat) :
    (session.undisturbed.runFrom pacer (requests.take count)).session.calls <+:
      (session.undisturbed.runFrom pacer requests).session.calls := by
  rw [runFrom_undisturbed_take_append session pacer requests count]
  exact (evolves_runFrom _ _ fun _ hmem => hmem).prefix_calls

/-! ## The moment of the cancellation -/

theorem awaitTurn_eq_true (h : session.awaitTurn pacer = (true, after)) :
    after.2.cancelled = session.cancelled ∧ after.2.calls = session.calls := by
  rcases awaitTurn_cases session pacer with ⟨-, heq⟩ | ⟨-, -, -, heq⟩ | ⟨-, -, _, heq⟩
  · rw [heq] at h
    cases h
    exact ⟨rfl, rfl⟩
  · rw [heq] at h
    cases h
    exact ⟨rfl, by simp [calls, Event.call?]⟩
  · rw [heq] at h
    cases h

/-- A handled request in which the session is cancelled is one for which a translator was asked,
and its answer is the outcome. -/
theorem calls_of_translatePaced (h : session.translatePaced pacer request = (some outcome, after))
    (hbefore : session.cancelled = false) (hafter : after.2.cancelled = true) :
    after.2.calls = session.calls ++ [(request, outcome.toOption)] := by
  obtain ⟨-, ⟨_, -, -, rfl⟩ | ⟨-, later, hturn, rfl, rfl⟩⟩ := translatePaced_eq_some h
  · rw [hbefore] at hafter
    cases hafter
  · obtain ⟨hcancelled, hcalls⟩ := awaitTurn_eq_true hturn
    rw [hbefore] at hcancelled
    rcases translate_cases later request with ⟨_, -, heq⟩ | ⟨-, translator, -, heq⟩ | ⟨-, -, heq⟩
    · rw [heq, hcancelled] at hafter
      cases hafter
    · rw [heq, ← hcalls]
      simp [calls, ask, Event.call?]
    · rw [heq, hcancelled] at hafter
      cases hafter

/-- A run over requests as the beginning of the run that nothing cancels, with so many of them
handled. -/
structure Begins (session : Session σ) (requests : List Request) (count : Nat) : Prop where
  count_le : count ≤ requests.length
  length_whole : (session.undisturbed.run requests).outcomes.length = requests.length
  outcomes_eq : (session.run requests).outcomes =
    (session.undisturbed.run requests).outcomes.take count
  calls_eq : (session.run requests).session.calls =
    (session.undisturbed.run (requests.take count)).session.calls
  prefix_calls : (session.run requests).session.calls <+:
    (session.undisturbed.run requests).session.calls
  cache_eq : (session.run requests).session.cache =
    (session.undisturbed.run (requests.take count)).session.cache
  complete : (session.run requests).session.cancelled = false → count = requests.length
  eq_of_cancelled : session.cancelled = true → session.run requests = ⟨[], { }, session⟩
  /-- The run is over with the request during which the session is cancelled. The answer of a
  call in which it is cancelled is kept; a pause in which it is cancelled leaves the request
  out. -/
  eq_of_cancelled_at : ∀ done request rest, requests = done ++ request :: rest →
    (session.run done).session.cancelled = false →
    (session.run (done ++ [request])).session.cancelled = true →
    session.run requests = session.run (done ++ [request]) ∧
      (((session.run requests).outcomes = (session.run done).outcomes ∧
          (session.run requests).session.events =
            (session.run done).session.events ++ [.interrupted]) ∨
        ∃ outcome, (session.run requests).outcomes = (session.run done).outcomes ++ [outcome] ∧
          (session.run requests).session.calls =
            (session.run done).session.calls ++ [(request, outcome.toOption)])

theorem run_concat_of_cancelled_at {done : List Request}
    (hbefore : (session.run done).session.cancelled = false)
    (hafter : (session.run (done ++ [request])).session.cancelled = true) :
    ((session.run (done ++ [request])).outcomes = (session.run done).outcomes ∧
        (session.run (done ++ [request])).session.events =
          (session.run done).session.events ++ [.interrupted]) ∨
      ∃ outcome, (session.run (done ++ [request])).outcomes =
          (session.run done).outcomes ++ [outcome] ∧
        (session.run (done ++ [request])).session.calls =
          (session.run done).session.calls ++ [(request, outcome.toOption)] := by
  have hstep : session.run (done ++ [request]) = (session.run done).followedBy
      ((session.run done).session.runFrom (session.run done).pacer [request]) :=
    runFrom_append [request] (length_runFrom hbefore)
  rw [hstep] at hafter ⊢
  rcases hpaced : (session.run done).session.translatePaced (session.run done).pacer request
    with ⟨_ | outcome, after⟩
  · left
    rw [runFrom_cons_of_none hpaced]
    rcases translatePaced_eq_none hpaced with ⟨hcancelled, -⟩ | ⟨-, _, rfl⟩
    · rw [hbefore] at hcancelled
      cases hcancelled
    · exact ⟨List.append_nil _, rfl⟩
  · right
    rw [runFrom_cons_of_some hpaced] at hafter ⊢
    exact ⟨outcome, rfl, calls_of_translatePaced hpaced hbefore hafter⟩

/-- Whatever cancels a session, and whenever, a run in it is the beginning of the run that
nothing cancels. -/
theorem begins (session : Session σ) (requests : List Request) :
    session.Begins requests (session.run requests).outcomes.length := by
  obtain ⟨-, hcache, hcalls⟩ := runFrom_take_undisturbed session { } requests
  constructor
  · exact length_runFrom_le session { } requests
  · exact length_runFrom_undisturbed session { } requests
  · exact outcomes_eq_take session { } requests
  · exact hcalls.symm
  · exact hcalls ▸ prefix_calls_undisturbed session { } requests _
  · exact hcache.symm
  · exact length_runFrom
  · exact runFrom_of_cancelled
  · rintro done request rest rfl hbefore hafter
    have hrun : session.run (done ++ request :: rest) = session.run (done ++ [request]) := by
      have h := runFrom_append_of_cancelled rest hafter
      rwa [List.append_assoc] at h
    rw [hrun]
    exact ⟨rfl, run_concat_of_cancelled_at hbefore hafter⟩

end Session

end Marginalia
