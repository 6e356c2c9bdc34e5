import Marginalia.Proofs.Comment.Cover
import Marginalia.Proofs.Session.Answers
import Marginalia.Proofs.Workflow.Cancellation

/-! # The cache does not show

When the provider answers by the key, the results of a whole batch and the report on a whole
document are those of a session without a cache: neither its entries, as long as they agree with
the provider, nor its capacity makes a difference.
-/

namespace Marginalia

variable {σ : Type} {answer : String → Except Failure Translation}

/-- The provider's own translation of a text, and the text itself where the provider fails. -/
def Options.ownTranslation (options : Options) (answer : String → Except Failure Translation)
    (text : String) : Translation :=
  match answer (Cache.key text options.target) with
  | .ok translation => translation
  | .error _ => options.passthrough text

theorem Session.Answers.translateWholeBatch {session : Session σ} {options : Options}
    (hanswers : session.Answers options answer) (hcache : session.cache.Agrees answer)
    (texts : List String) :
    (session.translateWholeBatch options texts).1 = texts.map (options.ownTranslation answer) := by
  have hquiet := congrArg Prod.fst (session.translateBatch_undisturbed_eq options texts)
  rw [← hquiet, Session.translateBatch, Session.orPassthrough]
  rw [hanswers.outcomes_run hcache, ← List.map_prod_left_eq_zip, List.map_map]
  rfl

namespace Workflow

/-- The workflow with another cache. -/
def withCache (workflow : Workflow σ) (cache : Cache) : Workflow σ :=
  { workflow with session := { workflow.session with cache } }

/-- The edit for a comment when it is brought to the provider itself. -/
def ownEdit? (options : Options) (answer : String → Except Failure Translation)
    (lines : List String) (comment : Nat × Comment) : Option Edit :=
  editFor lines (comment, answer (Cache.key comment.2.body options.target))

/-- The report on a document each of whose comments is brought to the provider itself: the edits
that there are, and a failure for each comment without one. -/
def ownReport (workflow : Workflow σ) (answer : String → Except Failure Translation)
    (lines : List String) (language : String) : Report :=
  let comments := workflow.registry.comments lines language
  let edit? := ownEdit? workflow.options answer lines
  { edits := comments.filterMap edit?
    commentsFound := comments.length
    failed := comments.countP fun comment => (edit? comment).isNone }

variable {workflow : Workflow σ} {lines : List String} {language : String}

theorem reportOn_own :
    reportOn lines (workflow.registry.comments lines language)
        ((workflow.registry.comments lines language).map fun comment =>
          answer (Cache.key comment.2.body workflow.options.target)) =
      workflow.ownReport answer lines language := by
  have hedits : ((workflow.registry.comments lines language).zip
        ((workflow.registry.comments lines language).map fun comment =>
          answer (Cache.key comment.2.body workflow.options.target))).filterMap (editFor lines) =
      (workflow.registry.comments lines language).filterMap
        (ownEdit? workflow.options answer lines) := by
    rw [← List.map_prod_left_eq_zip, List.filterMap_map]
    rfl
  -- Each comment has an edit or is a failure.
  have hcount := List.length_eq_countP_add_countP
    (fun comment => (ownEdit? workflow.options answer lines comment).isSome)
    (l := workflow.registry.comments lines language)
  simp only [Bool.not_eq_true, Option.isSome_eq_false_iff, Bool.decide_eq_true] at hcount
  unfold reportOn ownReport
  simp only [hedits, List.length_map, List.length_filterMap_eq_countP, Nat.lt_irrefl, decide_false]
  congr
  omega

theorem translateDocument_undisturbed
    (hanswers : workflow.session.Answers workflow.options answer)
    (hcache : workflow.session.cache.Agrees answer) :
    (workflow.undisturbed.translateDocument lines language).1 =
      workflow.ownReport answer lines language := by
  have houtcomes := hanswers.outcomes_run hcache
    ((workflow.registry.comments lines language).map fun comment => comment.2.body)
  rw [List.map_map, List.map_map] at houtcomes
  rw [← reportOn_own]
  exact congrArg (reportOn lines (workflow.registry.comments lines language)) houtcomes

/-- A document in which no cancellation is seen is translated as if nothing could cancel. -/
theorem translateDocument_of_not_cancelled
    (h : (workflow.translateDocument lines language).1.cancelled = false) :
    (workflow.translateDocument lines language).1 =
      (workflow.undisturbed.translateDocument lines language).1 := by
  have htake := workflow.session.outcomes_eq_take { } (workflow.requests lines language)
  have hlength := workflow.session.length_runFrom_undisturbed { }
    (workflow.requests lines language)
  have hcomments : (workflow.requests lines language).length =
      (workflow.registry.comments lines language).length := List.length_map _
  have hall : (workflow.registry.comments lines language).length ≤
      (workflow.session.run (workflow.requests lines language)).outcomes.length :=
    Nat.le_of_not_lt (of_decide_eq_false h)
  rw [List.take_of_length_le (by rw [hlength, hcomments]; exact hall)] at htake
  exact congrArg (reportOn lines (workflow.registry.comments lines language)) htake

/-- With a provider that answers by the key and any cache that agrees with it, a whole batch has
the provider's own translation for each text, or the text where the provider fails. A document
has the provider's own report when nothing cancels, and whenever no cancellation is seen. So it
has the same report with any other such cache, whatever the capacities are. -/
theorem eq_own_of_answers {cache other : Cache}
    (hanswers : workflow.session.Answers workflow.options answer) (hcache : cache.Agrees answer)
    (hother : other.Agrees answer) (texts lines : List String) (language : String) :
    ((workflow.withCache cache).session.translateWholeBatch workflow.options texts).1 =
        texts.map (workflow.options.ownTranslation answer) ∧
      ((workflow.withCache cache).undisturbed.translateDocument lines language).1 =
        workflow.ownReport answer lines language ∧
      (((workflow.withCache cache).translateDocument lines language).1.cancelled = false →
        ((workflow.withCache cache).translateDocument lines language).1 =
          workflow.ownReport answer lines language) ∧
      ((workflow.withCache other).undisturbed.translateDocument lines language).1 =
        ((workflow.withCache cache).undisturbed.translateDocument lines language).1 := by
  have hanswers' (cache : Cache) :
      (workflow.withCache cache).session.Answers workflow.options answer :=
    hanswers.of_translators_eq rfl
  have hreport : ((workflow.withCache cache).undisturbed.translateDocument lines language).1 =
      workflow.ownReport answer lines language :=
    translateDocument_undisturbed (hanswers' cache) hcache
  refine ⟨(hanswers' cache).translateWholeBatch hcache texts, hreport, ?_, ?_⟩
  · intro hcancelled
    rw [translateDocument_of_not_cancelled hcancelled]
    exact hreport
  · rw [hreport]
    exact translateDocument_undisturbed (hanswers' other) hother

/-- A provider that fails on one text and marks the key of every other one. -/
def failingOn (text : String) (key : String) : Except Failure Translation :=
  if key = Cache.key text "en" then .error (.transport .google .noAnswer)
  else .ok ⟨key ++ "!", none, "en"⟩

/-- A workflow with that provider and without a cache. -/
def failing (registry : Registry) : Workflow Unit where
  registry := registry
  session := {
    translators := [(.google, fun request state => ⟨failingOn "b" request.key, false, state⟩)]
    pause := fun state => (false, state)
    delay := 0
    cache := { capacity := 0 }
    state := () }
  history := { capacity := 0 }
  options := { }

theorem answers_failing (registry : Registry) :
    (failing registry).session.Answers { } (failingOn "b") := by
  rintro request hoptions state
  simp [Session.consult, Session.translator?, failing, hoptions]

/-- A cache with room for one entry, which has to make room twice, and no cache at all. -/
theorem eq_own_of_answers_evicting :
    ∃ registry, Registry.builtin = .ok registry ∧
      (((failing registry).withCache ⟨1, [("c::en", ⟨"c::en!", none, "en"⟩)]⟩).session
        |>.translateWholeBatch { } ["a", "c", " A", "b"]).1 =
        [⟨"a::en!", none, "en"⟩, ⟨"c::en!", none, "en"⟩, ⟨"a::en!", none, "en"⟩,
          ⟨"b", some "auto", "en"⟩] ∧
      (((failing registry).withCache ⟨0, []⟩).undisturbed.translateDocument
        ["// A", "int x;", "// b"] "c").1 = ⟨[⟨0, "// A", "// a::en!"⟩], 2, 1, false⟩ := by
  obtain ⟨registry, hbuiltin, hreport⟩ := Registry.exists_builtin
    (fun registry => (failing registry).ownReport (failingOn "b") ["// A", "int x;", "// b"] "c" =
      ⟨[⟨0, "// A", "// a::en!"⟩], 2, 1, false⟩) (by decide +kernel)
  have hagrees : Cache.Agrees ⟨1, [("c::en", ⟨"c::en!", none, "en"⟩)]⟩ (failingOn "b") := by
    simp only [Cache.Agrees, List.mem_singleton, forall_eq]
    decide
  have hempty : Cache.Agrees ⟨0, []⟩ (failingOn "b") := by simp [Cache.Agrees]
  obtain ⟨hbatch, hdocument, -, hsame⟩ := eq_own_of_answers (answers_failing registry) hagrees
    hempty ["a", "c", " A", "b"] ["// A", "int x;", "// b"] "c"
  refine ⟨registry, hbuiltin, hbatch.trans ?_, ?_⟩
  · simp only [failing]
    decide
  · rw [hsame, hdocument]
    exact of_decide_eq_true hreport

end Workflow

end Marginalia
