import Marginalia.Proofs.Session.Cancellation

/-! # Runs that somebody else cancels

Between two requests of a run somebody else may cancel the session, whether or not the next
request reaches a translator. The outcomes of such a run are the outcomes of its requests each in
the session in which its turn came.
-/

namespace Marginalia.Session

variable {σ : Type} {session : Session σ} {pacer : Pacer} {request : Request}
  {requests : List Request} {cancels : Nat → Bool} {done : Nat}
  {outcome : Except Failure Translation} {after : Pacer × Session σ}

/-- Translates the next text of a run, before which somebody else may have cancelled the
session. -/
def translateNext (session : Session σ) (cancels : Bool) (pacer : Pacer) (request : Request) :
    Option (Except Failure Translation) × Pacer × Session σ :=
  { session with cancelled := session.cancelled || cancels }.translatePaced pacer request

/-- The session in which the turn of a request has come: at once when the cache has what it asks
for, and after the pause that is due otherwise. -/
def atTurn (session : Session σ) (pacer : Pacer) (request : Request) : Session σ :=
  if session.cache.contains request.key then session else (session.awaitTurn pacer).2.2

/-- Translates the texts of the requests one after the other, so many of the run being done
already. Before which requests somebody else cancels the session is said by their number in the
run. -/
def runAmid (cancels : Nat → Bool) (done : Nat) (session : Session σ) (pacer : Pacer) :
    List Request → Run σ
  | [] => ⟨[], pacer, session⟩
  | request :: requests =>
    match session.translateNext (cancels done) pacer request with
    | (none, after) => ⟨[], after.1, after.2⟩
    | (some outcome, after) =>
      let run := runAmid cancels (done + 1) after.2 after.1 requests
      { run with outcomes := outcome :: run.outcomes }

/-! ## One request -/

theorem translateNext_false :
    session.translateNext false pacer request = session.translatePaced pacer request := by
  simp [translateNext]

theorem translateNext_of_cancelled (fires : Bool) (h : session.cancelled = true) :
    session.translateNext fires pacer request = (none, pacer, session) := by
  have hsame : { session with cancelled := session.cancelled || fires } = session := by
    rw [h, Bool.true_or, ← h]
  rw [translateNext, hsame, translatePaced_of_cancelled h]

theorem cancelled_of_translateNext {fires : Bool}
    (h : session.translateNext fires pacer request = (none, after)) :
    after.2.cancelled = true :=
  cancelled_of_translatePaced h

/-- A request is handled only when nobody cancelled the session before it. -/
theorem translatePaced_of_translateNext {fires : Bool}
    (h : session.translateNext fires pacer request = (some outcome, after)) :
    session.translatePaced pacer request = (some outcome, after) := by
  cases fires with
  | false => rwa [translateNext_false] at h
  | true =>
      rw [translateNext, Bool.or_true, translatePaced_of_cancelled rfl] at h
      cases h

theorem cancelled_eq_false_of_translateNext {fires : Bool}
    (h : session.translateNext fires pacer request = (some outcome, after)) :
    session.cancelled = false :=
  (translatePaced_eq_some (translatePaced_of_translateNext h)).1

theorem evolves_atTurn (session : Session σ) (asks : Request → Prop) (pacer : Pacer)
    (request : Request) : session.Evolves asks (session.atTurn pacer request) := by
  unfold atTurn
  split
  · exact .refl
  · exact .awaitTurn pacer .refl

/-- The outcome for a request is that of its translation in the session at its turn. -/
theorem translate_atTurn (h : session.translatePaced pacer request = (some outcome, after)) :
    (session.atTurn pacer request).translate request = (outcome, after.2) := by
  obtain ⟨-, ⟨_, hfind, rfl, rfl⟩ | ⟨hfind, later, hturn, rfl, rfl⟩⟩ := translatePaced_eq_some h
  · simp [atTurn, Cache.contains_eq, hfind, translate_of_find? hfind]
  · simp [atTurn, Cache.contains_eq, hfind, hturn]

/-! ## Runs -/

theorem runAmid_cons_of_none
    (h : session.translateNext (cancels done) pacer request = (none, after)) :
    session.runAmid cancels done pacer (request :: requests) = ⟨[], after.1, after.2⟩ := by
  simp only [runAmid, h]

theorem runAmid_cons_of_some
    (h : session.translateNext (cancels done) pacer request = (some outcome, after)) :
    session.runAmid cancels done pacer (request :: requests) =
      { after.2.runAmid cancels (done + 1) after.1 requests with
        outcomes :=
          outcome :: (after.2.runAmid cancels (done + 1) after.1 requests).outcomes } := by
  simp only [runAmid, h]

theorem runAmid_never (session : Session σ) (done : Nat) (pacer : Pacer)
    (requests : List Request) :
    session.runAmid (fun _ => false) done pacer requests = session.runFrom pacer requests := by
  induction requests generalizing session pacer done with
  | nil => rfl
  | cons request requests ih =>
      rcases hpaced : session.translatePaced pacer request with ⟨_ | outcome, after⟩
      · rw [runFrom_cons_of_none hpaced]
        exact runAmid_cons_of_none (translateNext_false.trans hpaced)
      · rw [runFrom_cons_of_some hpaced, ← ih after.2 (done + 1) after.1]
        exact runAmid_cons_of_some (translateNext_false.trans hpaced)

theorem length_runAmid_le (session : Session σ) (cancels : Nat → Bool) (done : Nat)
    (pacer : Pacer) (requests : List Request) :
    (session.runAmid cancels done pacer requests).outcomes.length ≤ requests.length := by
  induction requests generalizing session pacer done with
  | nil => simp [runAmid]
  | cons request requests ih =>
      rcases hnext : session.translateNext (cancels done) pacer request with ⟨_ | outcome, after⟩
      · simp [runAmid_cons_of_none hnext]
      · rw [runAmid_cons_of_some hnext]
        simpa using ih after.2 (done + 1) after.1

/-- An outcome of a run is that of its request at its turn, with the requests before it done. -/
theorem translate_atTurn_of_outcome {place : Nat} (hrequest : requests[place]? = some request)
    (h : (session.runAmid cancels done pacer requests).outcomes[place]? = some outcome) :
    let before := session.runAmid cancels done pacer (requests.take place)
    ((before.session.atTurn before.pacer request).translate request).1 = outcome := by
  induction requests generalizing session pacer done place with
  | nil => simp at hrequest
  | cons first requests ih =>
      rcases hnext : session.translateNext (cancels done) pacer first with ⟨_ | handled, after⟩
      · simp [runAmid_cons_of_none hnext] at h
      · rw [runAmid_cons_of_some hnext] at h
        cases place with
        | zero =>
            cases hrequest
            cases h
            exact congrArg Prod.fst (translate_atTurn (translatePaced_of_translateNext hnext))
        | succ place =>
            rw [List.take_succ_cons, runAmid_cons_of_some hnext]
            exact ih hrequest h

end Marginalia.Session
