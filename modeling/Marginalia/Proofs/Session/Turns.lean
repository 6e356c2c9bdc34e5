import Marginalia.Proofs.Session.Cancellation

/-! # The turn of a request

A request whose translator is registered goes one of four ways in a run. It finds the session
cancelled; or the cache has its key; or the pause before its turn is cut; or its turn comes, after a
pause if one is due, and the translator is asked. Whether it pauses is decided by one look into
the cache and whether it asks by another one later, and the two never disagree.
-/

namespace Marginalia.Session

variable {σ : Type} {session : Session σ} {pacer : Pacer} {request : Request}
  {translator : Translator σ}

/-- Whether a pause is due before the next turn. -/
def IsDue (session : Session σ) (pacer : Pacer) : Prop := 0 < pacer.requests ∧ 0 < session.delay

instance (session : Session σ) (pacer : Pacer) : Decidable (session.IsDue pacer) :=
  inferInstanceAs (Decidable (_ ∧ _))

/-- Whether the session is cancelled in the pause that is due. -/
def IsCut (session : Session σ) (pacer : Pacer) : Prop :=
  session.IsDue pacer ∧ (session.pause session.state).1 = true

instance (session : Session σ) (pacer : Pacer) : Decidable (session.IsCut pacer) :=
  inferInstanceAs (Decidable (_ ∧ _))

/-- The session after the pause that is due, if one is. -/
def rested (session : Session σ) (pacer : Pacer) : Session σ :=
  if session.IsDue pacer then
    { session with
      state := (session.pause session.state).2
      events := session.events ++ [.paused] }
  else session

@[simp] theorem cache_rested : (session.rested pacer).cache = session.cache := by
  unfold rested
  split <;> rfl

@[simp] theorem delay_rested : (session.rested pacer).delay = session.delay := by
  unfold rested
  split <;> rfl

@[simp] theorem translators_rested : (session.rested pacer).translators = session.translators := by
  unfold rested
  split <;> rfl

theorem events_rested :
    (session.rested pacer).events =
      session.events ++ if session.IsDue pacer then [.paused] else [] := by
  unfold rested
  split
  · rfl
  · exact (List.append_nil _).symm

@[simp] theorem calls_rested : (session.rested pacer).calls = session.calls := by
  rw [calls, events_rested]
  split <;> simp [calls, Event.call?]

/-- A session that is not cancelled waits for a turn: the pause that is due is cut, or it is
waited out. -/
theorem awaitTurn_of_not_cancelled (h : session.cancelled = false) :
    session.awaitTurn pacer =
      if session.IsCut pacer then
        (false, pacer, { session with
          state := (session.pause session.state).2
          cancelled := true
          events := session.events ++ [.interrupted] })
      else (true, ⟨pacer.requests + 1⟩, session.rested pacer) := by
  by_cases hdue : session.IsDue pacer
  · have hwait : 0 < pacer.requests ∧ 0 < session.delay := hdue
    by_cases hpause : (session.pause session.state).1 = true
    · have hcut : session.IsCut pacer := ⟨hdue, hpause⟩
      simp [awaitTurn, takePause, hwait, h, hpause, hcut]
    · have hcut : ¬ session.IsCut pacer := fun hcut => hpause hcut.2
      simp [awaitTurn, takePause, hwait, h, hpause, hcut, rested, hdue]
  · have hwait : ¬ (0 < pacer.requests ∧ 0 < session.delay) := hdue
    have hcut : ¬ session.IsCut pacer := fun hcut => hdue hcut.1
    simp [awaitTurn, hwait, hcut, rested, hdue]

theorem translatePaced_of_find? {translation : Translation} (hcancelled : session.cancelled = false)
    (hfind : session.cache.find? request.key = some translation) :
    session.translatePaced pacer request = (some (.ok translation), pacer, session) := by
  simp [translatePaced, hcancelled, Cache.contains_eq, hfind, translate_of_find? hfind]

theorem translatePaced_of_cut (hcancelled : session.cancelled = false)
    (hfind : session.cache.find? request.key = none) (hcut : session.IsCut pacer) :
    session.translatePaced pacer request = (none, pacer, { session with
      state := (session.pause session.state).2
      cancelled := true
      events := session.events ++ [.interrupted] }) := by
  simp [translatePaced, hcancelled, Cache.contains_eq, hfind, awaitTurn_of_not_cancelled, hcut]

/-- A request whose turn comes is put to the translator of its provider. -/
theorem translatePaced_of_turn (hcancelled : session.cancelled = false)
    (hfind : session.cache.find? request.key = none) (hcut : ¬ session.IsCut pacer)
    (hregistered : session.translator? request.options.provider = some translator) :
    session.translatePaced pacer request =
      (some ((session.rested pacer).ask translator request).1, ⟨pacer.requests + 1⟩,
        ((session.rested pacer).ask translator request).2) := by
  have htranslate : (session.rested pacer).translate request =
      (session.rested pacer).ask translator request := by
    simp only [translator?] at hregistered
    simp only [translate, translator?, cache_rested, translators_rested, hfind, hregistered]
  simp [translatePaced, hcancelled, Cache.contains_eq, hfind, awaitTurn_of_not_cancelled, hcut,
    htranslate]

end Marginalia.Session
