import Marginalia.Translation.Cache

/-! # Translating with a cache, with pauses and under cancellation

A session asks the registered translators for what the cache does not have. Translators and
pauses are arbitrary functions on a state of their own, so that an answer may depend on
everything that happened before, and either may cancel the session. A run over several
requests pauses before every request but the first that reaches a translator, and ends when it
sees the cancellation: before a request, or in a pause.
-/

namespace Marginalia

/-- What a translator does with a request: its outcome, whether the session is cancelled while
it is busy, and its state afterwards. -/
structure Reply (σ : Type) where
  outcome : Except Failure Translation
  cancels : Bool
  state : σ

/-- A translator: it answers requests, out of a state that it changes as it goes. -/
abbrev Translator (σ : Type) := Request → σ → Reply σ

/-- What happens in a session beyond its results. -/
inductive Event
  /-- A translator was asked; what it answered is `none` when it failed. -/
  | called (request : Request) (answer : Option Translation)
  /-- The translations that were known were forgotten. -/
  | forgot
  /-- A pause between two requests was waited out. -/
  | paused
  /-- A pause was cut short by the cancellation. -/
  | interrupted
  deriving DecidableEq, Repr

/-- Translators with a cache before them. -/
structure Session (σ : Type) where
  /-- The translators by provider; the first one for a provider counts. -/
  translators : List (Provider × Translator σ)
  /-- How a pause goes: whether the session is cancelled in it, and the state afterwards. -/
  pause : σ → Bool × σ
  /-- The length of a pause in milliseconds. -/
  delay : Nat
  cache : Cache
  state : σ
  cancelled : Bool := false
  /-- What happened so far, in order. -/
  events : List Event := []

/-- How many requests a run has let through. -/
structure Pacer where
  requests : Nat := 0
  deriving DecidableEq, Repr

namespace Session

variable {σ : Type}

def translator? (session : Session σ) (provider : Provider) : Option (Translator σ) :=
  session.translators.lookup provider

/-- Makes a translator the one of its provider. -/
def register (session : Session σ) (provider : Provider) (translator : Translator σ) :
    Session σ :=
  { session with translators := (provider, translator) :: session.translators }

def clearCache (session : Session σ) : Session σ :=
  { session with cache := session.cache.clear, events := session.events ++ [.forgot] }

/-- Asks a translator, and stores what it translated. -/
def ask (session : Session σ) (translator : Translator σ) (request : Request) :
    Except Failure Translation × Session σ :=
  let reply := translator request session.state
  let cache := match reply.outcome with
    | .ok translation => session.cache.set request.key translation
    | .error _ => session.cache
  (reply.outcome,
    { session with
      cache
      state := reply.state
      cancelled := session.cancelled || reply.cancels
      events := session.events ++ [.called request reply.outcome.toOption] })

/-- Translates one text, from the cache when it has the text and through the provider's
translator otherwise. -/
def translate (session : Session σ) (request : Request) :
    Except Failure Translation × Session σ :=
  match session.cache.find? request.key with
  | some translation => (.ok translation, session)
  | none =>
    match session.translator? request.options.provider with
    | some translator => session.ask translator request
    | none => (.error (.setting (.unregistered request.options.provider)), session)

/-- Pauses; the answer is whether the pause was waited out. A session that is already
cancelled cuts the pause at once. -/
def takePause (session : Session σ) : Bool × Session σ :=
  if session.cancelled then
    (false, { session with events := session.events ++ [.interrupted] })
  else
    let (cancels, state) := session.pause session.state
    if cancels then
      (false,
        { session with state, cancelled := true, events := session.events ++ [.interrupted] })
    else (true, { session with state, events := session.events ++ [.paused] })

/-- Waits for the turn of the next request: there is a pause before every request but the
first, unless pauses have no length. The answer is whether the turn came. -/
def awaitTurn (session : Session σ) (pacer : Pacer) : Bool × Pacer × Session σ :=
  if 0 < pacer.requests && 0 < session.delay then
    let (came, session) := session.takePause
    (came, if came then ⟨pacer.requests + 1⟩ else pacer, session)
  else (true, ⟨pacer.requests + 1⟩, session)

/-- Translates one text of a run: `none` once the cancellation is seen. What the cache has
needs no turn. -/
def translatePaced (session : Session σ) (pacer : Pacer) (request : Request) :
    Option (Except Failure Translation) × Pacer × Session σ :=
  if session.cancelled then (none, pacer, session)
  else if session.cache.contains request.key then
    let (outcome, session) := session.translate request
    (some outcome, pacer, session)
  else
    let (came, pacer, session) := session.awaitTurn pacer
    if came then
      let (outcome, session) := session.translate request
      (some outcome, pacer, session)
    else (none, pacer, session)

/-- What a run over several requests has done: an outcome for each request that was handled,
which are all of them unless the run was cancelled. -/
structure Run (σ : Type) where
  outcomes : List (Except Failure Translation)
  pacer : Pacer
  session : Session σ

/-- Translates the texts of the requests one after the other. -/
def runFrom (session : Session σ) (pacer : Pacer) : List Request → Run σ
  | [] => ⟨[], pacer, session⟩
  | request :: requests =>
    match session.translatePaced pacer request with
    | (none, pacer, session) => ⟨[], pacer, session⟩
    | (some outcome, pacer, session) =>
      let run := runFrom session pacer requests
      { run with outcomes := outcome :: run.outcomes }

/-- Translates the texts of the requests one after the other, as a run of its own. -/
def run (session : Session σ) (requests : List Request) : Run σ :=
  session.runFrom { } requests

/-! ## Runs that go through with it -/

/-- Waits out the turn of the next request. A cancellation in the pause is kept in mind, but the
pause goes on to its end. -/
def sitOutTurn (session : Session σ) (pacer : Pacer) : Pacer × Session σ :=
  if 0 < pacer.requests && 0 < session.delay then
    let (cancels, state) := session.pause session.state
    (⟨pacer.requests + 1⟩,
      { session with
        state
        cancelled := session.cancelled || cancels
        events := session.events ++ [.paused] })
  else (⟨pacer.requests + 1⟩, session)

/-- Translates one text of a run, cancelled or not. -/
def translateRegardless (session : Session σ) (pacer : Pacer) (request : Request) :
    Except Failure Translation × Pacer × Session σ :=
  let (pacer, session) :=
    if session.cache.contains request.key then (pacer, session) else session.sitOutTurn pacer
  let (outcome, session) := session.translate request
  (outcome, pacer, session)

/-- Translates the texts of all the requests one after the other, cancelled or not. -/
def runWholeFrom (session : Session σ) (pacer : Pacer) : List Request → Run σ
  | [] => ⟨[], pacer, session⟩
  | request :: requests =>
    let (outcome, pacer, session) := session.translateRegardless pacer request
    let run := runWholeFrom session pacer requests
    { run with outcomes := outcome :: run.outcomes }

/-- The session in which nothing cancels. -/
def undisturbed (session : Session σ) : Session σ :=
  { session with
    translators := session.translators.map fun (provider, translator) =>
      (provider, fun request state => { translator request state with cancels := false })
    pause := fun state => (false, (session.pause state).2)
    cancelled := false }

/-- The translations of the texts that were handled; a text that failed stands in for its
translation. -/
def orPassthrough (options : Options) (texts : List String)
    (outcomes : List (Except Failure Translation)) : List Translation :=
  (texts.zip outcomes).map fun (text, outcome) =>
    match outcome with
    | .ok translation => translation
    | .error _ => options.passthrough text

/-- Translates texts one after the other until the session is cancelled. -/
def translateBatch (session : Session σ) (options : Options) (texts : List String) :
    List Translation × Session σ :=
  let run := session.run (texts.map options.request)
  (orPassthrough options texts run.outcomes, run.session)

/-- Translates all the texts one after the other. A cancellation stops nothing here, but it is
there when the batch is over. -/
def translateWholeBatch (session : Session σ) (options : Options) (texts : List String) :
    List Translation × Session σ :=
  let run := session.runWholeFrom { } (texts.map options.request)
  (orPassthrough options texts run.outcomes, run.session)

end Session

end Marginalia
