import Marginalia.Proofs.Session.Turns
import Marginalia.Proofs.Workflow.Batches
import Marginalia.Proofs.Workflow.Cancellation

/-! # Pauses and calls

A run asks for exactly those of its requests that it reaches, that the cache does not have by then
and whose pause is not cut. Its log is its calls in order with a pause between any two of them, if
pauses have a length, and the pacer counts the calls. A pause that is cut is the end of the log.
This is so for batches and for documents, whatever the translators answer and whenever the session
is cancelled.
-/

namespace Marginalia

variable {σ : Type}

/-! ## One request -/

/-- Where a run is: how many requests it has handled, with its pacer and its session. -/
structure Checkpoint (σ : Type) where
  handled : Nat
  pacer : Pacer
  session : Session σ

/-- How a run gets from before a request to after it, where `fires` says whether somebody else
cancels the session before the request. -/
inductive Turn (fires : Bool) (request : Request) (before : Checkpoint σ) : Checkpoint σ → Prop
  /-- The session is cancelled when the request is reached. -/
  | leftOut (hcancelled : (before.session.cancelled || fires) = true) :
    Turn fires request before
      { before with session := { before.session with cancelled := true } }
  /-- The cache has the key of the request. -/
  | known (hruns : (before.session.cancelled || fires) = false)
      (hkey : before.session.cache.contains request.key = true) :
    Turn fires request before { before with handled := before.handled + 1 }
  /-- The pause before the request is cut. -/
  | cutShort (hruns : (before.session.cancelled || fires) = false)
      (hkey : before.session.cache.contains request.key = false)
      (hcut : before.session.IsCut before.pacer) (state : σ) :
    Turn fires request before
      { before with
        session := { before.session with
          state
          cancelled := true
          events := before.session.events ++ [.interrupted] } }
  /-- The provider is asked, after the pause that is due. -/
  | asked (hruns : (before.session.cancelled || fires) = false)
      (hkey : before.session.cache.contains request.key = false)
      (hcut : ¬ before.session.IsCut before.pacer) (session : Session σ)
      (answer : Option Translation) (hdelay : session.delay = before.session.delay)
      (hevents : session.events = before.session.events ++
        (if before.session.IsDue before.pacer then [.paused] else []) ++
          [.called request answer]) :
    Turn fires request before ⟨before.handled + 1, ⟨before.pacer.requests + 1⟩, session⟩

namespace Session

variable {session : Session σ} {pacer : Pacer} {request : Request} {translator : Translator σ}

/-- The checkpoint behind a request, of which the result of `translateNext` is given. -/
def behind (handled : Nat) :
    Option (Except Failure Translation) × Pacer × Session σ → Checkpoint σ
  | (none, pacer, session) => ⟨handled, pacer, session⟩
  | (some _, pacer, session) => ⟨handled + 1, pacer, session⟩

/-- The step: a request whose provider is registered gets its turn, or one of the ways out. -/
theorem turn_translateNext (fires : Bool) (handled : Nat)
    (hregistered : session.translator? request.options.provider = some translator) :
    Turn fires request ⟨handled, pacer, session⟩
      (behind handled (session.translateNext fires pacer request)) := by
  cases hstop : session.cancelled || fires with
  | true =>
      rw [translateNext, hstop, translatePaced_of_cancelled rfl]
      exact .leftOut hstop
  | false =>
      have hruns := hstop
      obtain ⟨hcancelled, rfl⟩ := Bool.or_eq_false_iff.mp hstop
      rw [translateNext_false]
      cases hfind : session.cache.find? request.key with
      | some translation =>
          rw [translatePaced_of_find? hcancelled hfind]
          exact .known hruns (by simp [Cache.contains_eq, hfind])
      | none =>
          have hkey : session.cache.contains request.key = false := by
            simp [Cache.contains_eq, hfind]
          by_cases hcut : session.IsCut pacer
          · rw [translatePaced_of_cut hcancelled hfind hcut]
            exact .cutShort hruns hkey hcut _
          · rw [translatePaced_of_turn hcancelled hfind hcut hregistered]
            refine .asked hruns hkey hcut _
              (translator request (session.rested pacer).state).outcome.toOption ?_ ?_
            · exact delay_rested
            · rw [← events_rested]
              rfl

end Session

/-! ## Runs -/

/-- The log of calls in order, with a pause before every call but the first if pauses have a
length. -/
def spaced (delay : Nat) : List (Request × Option Translation) → List Event
  | [] => []
  | first :: others =>
    .called first.1 first.2 :: others.flatMap fun call =>
      (if 0 < delay then [.paused] else []) ++ [.called call.1 call.2]

variable {delay : Nat} {calls : List (Request × Option Translation)} {session : Session σ}
  {requests : List Request} {cancels : Nat → Bool} {reached : Nat → Checkpoint σ}

theorem spaced_concat (request : Request) (answer : Option Translation) :
    spaced delay (calls ++ [(request, answer)]) =
      spaced delay calls ++ (if 0 < calls.length ∧ 0 < delay then [.paused] else []) ++
        [.called request answer] := by
  cases calls with
  | nil => simp [spaced]
  | cons first others => simp [spaced]

theorem filterMap_call?_spaced : (spaced delay calls).filterMap Event.call? = calls := by
  induction calls using List.reverseRecOn with
  | nil => rfl
  | append_singleton calls call ih =>
      rw [spaced_concat, List.filterMap_append, List.filterMap_append, ih]
      split <;> simp [Event.call?]

theorem count_paused_spaced :
    (spaced delay calls).count .paused = if 0 < delay then calls.length - 1 else 0 := by
  induction calls using List.reverseRecOn with
  | nil => simp [spaced]
  | append_singleton calls call ih =>
      rw [spaced_concat, List.count_append, List.count_append, ih]
      by_cases hdelay : 0 < delay
      · by_cases hcalls : 0 < calls.length
        · simp [hdelay, hcalls]
          omega
        · simp [hdelay, Nat.eq_zero_of_not_pos hcalls]
      · simp [hdelay]

/-- Whether a run that began in a session got to a checkpoint with its pauses and its counter in
step with its calls: a pause between any two calls, and perhaps one that was cut behind them. -/
def InPace (session : Session σ) (now : Checkpoint σ) : Prop :=
  ∃ calls cut, now.session.events = session.events ++ spaced session.delay calls ++ cut ∧
    now.session.calls = session.calls ++ calls ∧
    now.pacer.requests = calls.length ∧
    now.session.events.count .paused = session.events.count .paused +
      (if 0 < session.delay then calls.length - 1 else 0) ∧
    (cut = [] ∨ cut = [.interrupted] ∧ 0 < session.delay ∧ 0 < calls.length ∧
      now.session.cancelled = true)

theorem inPace_of_events (calls : List (Request × Option Translation)) (cut : List Event)
    {now : Checkpoint σ}
    (hevents : now.session.events = session.events ++ spaced session.delay calls ++ cut)
    (hrequests : now.pacer.requests = calls.length)
    (hcut : cut = [] ∨ cut = [.interrupted] ∧ 0 < session.delay ∧ 0 < calls.length ∧
      now.session.cancelled = true) : InPace session now := by
  have hsilent : cut.filterMap Event.call? = [] ∧ cut.count .paused = 0 := by
    rcases hcut with rfl | ⟨rfl, -⟩ <;> decide
  refine ⟨calls, cut, hevents, ?_, hrequests, ?_, hcut⟩
  · rw [Session.calls, hevents, List.filterMap_append, List.filterMap_append,
      filterMap_call?_spaced, hsilent.1, List.append_nil]
    rfl
  · rw [hevents, List.count_append, List.count_append, count_paused_spaced, hsilent.2,
      Nat.add_zero]

section Turn

variable {fires : Bool} {request : Request} {before now : Checkpoint σ}

theorem Turn.delay_eq (h : Turn fires request before now) :
    now.session.delay = before.session.delay := by
  cases h with
  | leftOut | known | cutShort => rfl
  | asked _ _ _ _ _ hdelay _ => exact hdelay

/-- A run that is cancelled stays where it is. -/
theorem Turn.eq_of_cancelled (h : Turn fires request before now)
    (hcancelled : before.session.cancelled = true) : now = before := by
  cases h with
  | leftOut =>
      obtain ⟨handled, pacer, session⟩ := before
      simp only at hcancelled
      simp [← hcancelled]
  | known hruns | cutShort hruns | asked hruns =>
      rw [hcancelled, Bool.true_or] at hruns
      cases hruns

/-- The provider is asked in a turn when the key is missing and nothing cancels the session
before the call. -/
theorem Turn.asked_iff (h : Turn fires request before now) :
    (∃ answer, now.session.calls = before.session.calls ++ [(request, answer)]) ↔
      before.session.cache.contains request.key = false ∧
        (before.session.cancelled || fires) = false ∧ ¬ before.session.IsCut before.pacer := by
  cases h with
  | leftOut hcancelled => simp [Session.calls, hcancelled]
  | known _ hkey => simp [hkey]
  | cutShort _ _ hcut =>
      have hsilent : [Event.interrupted].filterMap Event.call? = [] := rfl
      simp [Session.calls, hsilent, hcut]
  | asked hruns hkey hcut later answer _ hlater =>
      refine iff_of_true ⟨answer, ?_⟩ ⟨hkey, hruns, hcut⟩
      rw [Session.calls, hlater, List.filterMap_append, List.filterMap_append]
      split <;> simp [Session.calls, Event.call?]

theorem Turn.eq_of_contains (h : Turn fires request before now)
    (hkey : before.session.cache.contains request.key = true) :
    now.session.events = before.session.events ∧ now.pacer = before.pacer := by
  cases h with
  | leftOut | known => exact ⟨rfl, rfl⟩
  | cutShort _ hnot | asked _ hnot =>
      rw [hkey] at hnot
      cases hnot

/-- A turn that cuts a pause does nothing else but to see the cancellation. -/
theorem Turn.of_interrupted (h : Turn fires request before now)
    (hevents : now.session.events = before.session.events ++ [.interrupted]) :
    now.session.cancelled = true ∧ now.pacer = before.pacer ∧
      now.session.calls = before.session.calls := by
  cases h with
  | leftOut | known => simp at hevents
  | cutShort => exact ⟨rfl, rfl, by simp [Session.calls, Event.call?]⟩
  | asked _ _ _ _ _ _ hlater =>
      rw [hlater, List.append_assoc, List.append_cancel_left_eq] at hevents
      split at hevents <;> simp at hevents

/-- The step: a run in pace stays so. -/
theorem InPace.turn (h : InPace session before) (hdelay : before.session.delay = session.delay)
    (hturn : Turn fires request before now) : InPace session now := by
  obtain ⟨calls, cut, hevents, -, hrequests, -, hcut⟩ := h
  -- A pause that was cut is behind all calls only because nothing follows a cancellation.
  have hnothing (hruns : (before.session.cancelled || fires) = false) : cut = [] := by
    rcases hcut with hcut | ⟨-, -, -, hcancelled⟩
    · exact hcut
    · rw [hcancelled, Bool.true_or] at hruns
      cases hruns
  cases hturn with
  | leftOut =>
      refine inPace_of_events calls cut hevents hrequests ?_
      rcases hcut with hcut | ⟨hcut, hpositive, hcalls, -⟩
      · exact Or.inl hcut
      · exact Or.inr ⟨hcut, hpositive, hcalls, rfl⟩
  | known => exact inPace_of_events calls cut hevents hrequests hcut
  | cutShort hruns _ hinterrupted state =>
      obtain rfl := hnothing hruns
      rw [List.append_nil] at hevents
      refine inPace_of_events calls [.interrupted] ?_ hrequests ?_
      · simp only [hevents]
      · obtain ⟨hcount, hpositive⟩ := hinterrupted.1
        exact Or.inr ⟨rfl, hdelay ▸ hpositive, hrequests ▸ hcount, rfl⟩
  | asked hruns _ _ later answer _ hlater =>
      obtain rfl := hnothing hruns
      rw [List.append_nil] at hevents
      refine inPace_of_events (calls ++ [(request, answer)]) [] ?_ ?_ (Or.inl rfl)
      · simp only [hlater, hevents, spaced_concat, Session.IsDue, hrequests, hdelay,
          List.append_assoc, List.append_nil]
      · simp [hrequests]

end Turn

/-- Whether a run over requests, which is at a checkpoint before and after each of them, pauses
for its calls and only for them. -/
structure Paced (session : Session σ) (requests : List Request) (cancels : Nat → Bool)
    (reached : Nat → Checkpoint σ) : Prop where
  begun : reached 0 = ⟨0, { }, session⟩
  turn : ∀ place request, requests[place]? = some request →
    Turn (cancels place) request (reached place) (reached (place + 1))
  /-- The provider is asked for a request when its key is missing, the session is not cancelled
  and the pause that is due is not cut. -/
  asked_iff : ∀ place request, requests[place]? = some request →
    ((∃ answer, (reached (place + 1)).session.calls =
        (reached place).session.calls ++ [(request, answer)]) ↔
      (reached place).session.cache.contains request.key = false ∧
        ((reached place).session.cancelled || cancels place) = false ∧
        ¬ (reached place).session.IsCut (reached place).pacer)
  /-- A request that the cache answers leaves the session alone, so it does not pause either. -/
  known : ∀ place request, requests[place]? = some request →
    (reached place).session.cache.contains request.key = true →
    (reached (place + 1)).session.events = (reached place).session.events ∧
      (reached (place + 1)).pacer = (reached place).pacer
  inPace : ∀ place ≤ requests.length, InPace session (reached place)
  /-- Behind a pause that was cut there is no call, and the counter stays as it was before. -/
  cut : ∀ place later, place < later → later ≤ requests.length →
    (reached (place + 1)).session.events = (reached place).session.events ++ [.interrupted] →
    (reached later).session.calls = (reached place).session.calls ∧
      (reached later).pacer = (reached place).pacer

/-- The run: what every turn does makes a run paced. -/
theorem paced_of_turns (hbegun : reached 0 = ⟨0, { }, session⟩)
    (hturn : ∀ place request, requests[place]? = some request →
      Turn (cancels place) request (reached place) (reached (place + 1))) :
    Paced session requests cancels reached := by
  have hturn' : ∀ place, (hplace : place < requests.length) →
      Turn (cancels place) requests[place] (reached place) (reached (place + 1)) := by
    intro place hplace
    exact hturn place _ (List.getElem?_eq_getElem hplace)
  have hrun : ∀ place ≤ requests.length,
      (reached place).session.delay = session.delay ∧ InPace session (reached place) := by
    intro place
    induction place with
    | zero =>
        intro _
        rw [hbegun]
        exact ⟨rfl, inPace_of_events [] [] (by simp [spaced]) rfl (Or.inl rfl)⟩
    | succ place ih =>
        intro hplace
        obtain ⟨hdelay, hpace⟩ := ih (Nat.le_of_succ_le hplace)
        have hnext := hturn' place hplace
        exact ⟨hnext.delay_eq.trans hdelay, hpace.turn hdelay hnext⟩
  constructor
  case begun => exact hbegun
  case turn => exact hturn
  case asked_iff =>
    intro place request hrequest
    exact (hturn place request hrequest).asked_iff
  case known =>
    intro place request hrequest hkey
    exact (hturn place request hrequest).eq_of_contains hkey
  case inPace =>
    intro place hplace
    exact (hrun place hplace).2
  case cut =>
    intro place later hlt hlater hevents
    obtain ⟨hcancelled, hpacer, hcalls⟩ :=
      (hturn' place (Nat.lt_of_lt_of_le hlt hlater)).of_interrupted hevents
    have hstays : reached later = reached (place + 1) := by
      induction hlt with
      | refl => rfl
      | @step later _ ih =>
          have hsame := ih (Nat.le_of_succ_le hlater)
          have hnext := hturn' later hlater
          rw [hnext.eq_of_cancelled (hsame ▸ hcancelled), hsame]
    rw [hstays]
    exact ⟨hcalls, hpacer⟩

/-! ## Batches -/

namespace Session

variable {translator : Translator σ} {options : Options} {texts : List String}

/-- How far a batch is. -/
def Batch.checkpoint (batch : Batch σ) : Checkpoint σ :=
  ⟨batch.results.length, batch.pacer, batch.session⟩

theorem Batch.checkpoint_advance (batch : Batch σ) (text : String)
    (next : Option (Except Failure Translation) × Pacer × Session σ) :
    (batch.advance options text next).checkpoint = behind batch.results.length next := by
  obtain ⟨_ | outcome, pacer, session⟩ := next
  · rfl
  · simp [advance, checkpoint, behind, record, resume]

theorem Batch.session_advance (batch : Batch σ) (text : String)
    (next : Option (Except Failure Translation) × Pacer × Session σ) :
    (batch.advance options text next).session = next.2.2 := by
  obtain ⟨_ | outcome, pacer, session⟩ := next <;> rfl

theorem translators_translateNext {pacer : Pacer} {request : Request} (fires : Bool) :
    (session.translateNext fires pacer request).2.2.translators = session.translators := by
  have hevolves : Evolves { session with cancelled := session.cancelled || fires }
      (fun _ => True) (session.translateNext fires pacer request).2.2 :=
    evolves_translatePaced _ pacer trivial
  exact hevolves.translators_eq

theorem translators_translateBatchStepwise (session : Session σ) (cancels : Nat → Bool)
    (options : Options) (texts : List String) :
    (session.translateBatchStepwise cancels options texts).session.translators =
      session.translators := by
  induction texts using List.reverseRecOn with
  | nil => rfl
  | append_singleton texts text ih =>
      rw [translateBatchStepwise_concat, Batch.session_advance, translators_translateNext]
      exact ih

theorem paced_translateBatchStepwise
    (hregistered : session.translator? options.provider = some translator)
    (cancels : Nat → Bool) (texts : List String) :
    Paced session (texts.map options.request) cancels fun place =>
      (session.translateBatchStepwise cancels options (texts.take place)).checkpoint := by
  apply paced_of_turns rfl
  intro place request hrequest
  rw [List.getElem?_map, Option.map_eq_some_iff] at hrequest
  obtain ⟨text, htext, rfl⟩ := hrequest
  have hlength : (texts.take place).length = place :=
    List.length_take_of_le (Nat.le_of_lt (List.getElem?_eq_some_iff.mp htext).1)
  rw [List.take_add_one, htext, Option.toList_some, translateBatchStepwise_concat, hlength]
  simp only [Batch.checkpoint_advance]
  apply turn_translateNext
  rw [translator?, translators_translateBatchStepwise]
  exact hregistered

end Session

/-! ## Documents -/

namespace Workflow

/-- How far a document is. -/
def Passage.checkpoint (passage : Passage σ) : Checkpoint σ :=
  ⟨passage.report.translated + passage.report.failed, passage.pacer, passage.workflow.session⟩

/-- A batch with the texts before a place done. -/
def batchAt (workflow : Workflow σ) (cancels : Nat → Bool) (texts : List String) (place : Nat) :
    Session.Batch σ :=
  workflow.session.translateBatchStepwise cancels workflow.options (texts.take place)

variable {workflow : Workflow σ} {lines : List String} {language : String}

/-- A document is always as far as the batch of the bodies of its comments. -/
theorem checkpoint_passageAt (place : Nat) :
    (workflow.passageAt cancels lines language place).checkpoint =
      (workflow.batchAt cancels ((workflow.registry.comments lines language).map
        fun comment => comment.2.body) place).checkpoint := by
  have hpairwise : ((workflow.registry.comments lines language).take place).Pairwise
      fun first second => first.1 < second.1 := Registry.pairwise_comments.take
  have h : InStep workflow cancels lines ((workflow.registry.comments lines language).take place)
      (workflow.passageAt cancels lines language place)
      (workflow.batchAt cancels ((workflow.registry.comments lines language).map
        fun comment => comment.2.body) place) := by
    rw [batchAt, ← List.map_take]
    exact inStep_runAmid workflow _ hpairwise
  rw [Passage.checkpoint, Session.Batch.checkpoint, h.session_eq, h.pacer_eq, h.handled_eq]

theorem translateBatch_eq_batchAt (workflow : Workflow σ) (texts : List String) :
    let batch := workflow.batchAt (fun _ => false) texts texts.length
    workflow.session.translateBatch workflow.options texts = (batch.results, batch.session) := by
  rw [batchAt, List.take_length]
  exact workflow.session.translateBatchStepwise_never workflow.options texts

theorem translateDocument_eq_passageAt (workflow : Workflow σ) (lines : List String)
    (language : String) :
    let passage := workflow.passageAt (fun _ => false) lines language
      (workflow.registry.comments lines language).length
    workflow.translateDocument lines language = (passage.report, passage.workflow) := by
  have hpassage : workflow.passageAt (fun _ => false) lines language
      (workflow.registry.comments lines language).length =
        workflow.translateAmid (fun _ => false) lines language := by
    rw [passageAt, List.take_length]
    rfl
  rw [hpassage, translateAmid_never]

/-- Whatever the providers answer and whenever the session is cancelled, by a provider, in a pause
or by somebody else between two requests, the batches and the documents of a workflow whose
provider is registered are paced from their first request to their last one. So it is with
`translateBatch` and `translateDocument`, which nobody else cancels, and with a whole batch, which
no cancellation stops, but which leaves the session cancelled where `translateBatch` does. -/
theorem paced_of_registered (workflow : Workflow σ) {translator : Translator σ}
    (hregistered : workflow.session.translator? workflow.options.provider = some translator) :
    (∀ cancels texts,
      Paced workflow.session (texts.map workflow.options.request) cancels fun place =>
        (workflow.batchAt cancels texts place).checkpoint) ∧
    (∀ cancels lines language,
      Paced workflow.session (workflow.requests lines language) cancels fun place =>
        (workflow.passageAt cancels lines language place).checkpoint) ∧
    (∀ texts, let batch := workflow.batchAt (fun _ => false) texts texts.length
      workflow.session.translateBatch workflow.options texts = (batch.results, batch.session)) ∧
    (∀ lines language,
      let passage := workflow.passageAt (fun _ => false) lines language
        (workflow.registry.comments lines language).length
      workflow.translateDocument lines language = (passage.report, passage.workflow)) ∧
    ∀ texts, let batch place := workflow.undisturbed.batchAt (fun _ => false) texts place
      Paced workflow.session.undisturbed (texts.map workflow.options.request) (fun _ => false)
          (fun place => (batch place).checkpoint) ∧
        (workflow.session.translateWholeBatch workflow.options texts).1 =
          (batch texts.length).results ∧
        (workflow.session.translateWholeBatch workflow.options texts).2.events =
          (batch texts.length).session.events ∧
        (workflow.session.translateWholeBatch workflow.options texts).2.cancelled =
          (workflow.session.translateBatch workflow.options texts).2.cancelled := by
  refine ⟨?_, ?_, workflow.translateBatch_eq_batchAt, workflow.translateDocument_eq_passageAt, ?_⟩
  · exact fun cancels texts => Session.paced_translateBatchStepwise hregistered cancels texts
  · intro cancels lines language
    have h := Session.paced_translateBatchStepwise hregistered cancels
      ((workflow.registry.comments lines language).map fun comment => comment.2.body)
    rw [List.map_map] at h
    simp only [checkpoint_passageAt]
    exact h
  · intro texts batch
    have hquiet : workflow.session.undisturbed.translator? workflow.options.provider =
        some translator.quiet := by
      rw [Session.translator?_undisturbed, hregistered]
      rfl
    have hquietly := workflow.session.translateBatch_undisturbed_eq workflow.options texts
    have hwhole := hquietly.symm.trans (workflow.undisturbed.translateBatch_eq_batchAt texts)
    refine ⟨Session.paced_translateBatchStepwise hquiet _ texts, ?_, ?_, ?_⟩
    · exact congrArg Prod.fst hwhole
    · exact congrArg (·.2.events) hwhole
    · exact Session.cancelled_runWholeFrom ..

/-- A workflow whose session knows one text, with a provider that translates every other text and
is cancelled in the second pause. -/
def interruptedWorkflow : Workflow Nat where
  registry := { }
  session := {
    translators := [(.google, fun request state => {
      outcome := if state = 0 then .error (.transport .google .noAnswer)
        else .ok ⟨request.text ++ "!", none, "en"⟩
      cancels := false
      state := state + 1 })]
    pause := fun state => (state = 2, state)
    delay := 7
    cache := { capacity := 5, entries := [("b::en", ⟨"B", none, "en"⟩)] }
    state := 0 }
  history := { capacity := 0 }
  options := { }

/-- The first text fails and counts as a call; the known one between does not pause; the pause
before the last two is cut. -/
theorem paced_of_registered_interrupted :
    let now := (interruptedWorkflow.batchAt (fun _ => false) ["a", "b", "a", "c", "d"] 5).checkpoint
    InPace interruptedWorkflow.session now ∧ now.session.calls.length = 2 ∧
      now.session.events = [.called ⟨"a", { }⟩ none, .paused,
        .called ⟨"a", { }⟩ (some ⟨"a!", none, "en"⟩), .interrupted] := by
  intro now
  obtain ⟨hbatch, -⟩ := paced_of_registered interruptedWorkflow rfl
  have hpaced := hbatch (fun _ => false) ["a", "b", "a", "c", "d"]
  exact ⟨hpaced.inPace 5 (Nat.le_refl 5), by decide, by decide⟩

end Workflow

end Marginalia
