import Marginalia.Proofs.Cache.Window
import Marginalia.Proofs.Session.Turns
import Mathlib.Data.Finset.Card

/-! # How little a batch asks

A batch whose provider answers by the text asks for a text only when the cache had nothing for its
key and no text before it with this key was translated. With room in the cache for all the keys
that are missing nothing is evicted on the way, so the cache grows by exactly the first
translation of each missing key, and whatever text comes later under that key gets it.
-/

namespace Marginalia

section Answers

variable (answer : String → Except Failure Translation) (target : String)

/-- The first translation that the provider gives for the texts with a key. -/
def firstSuccess (texts : List String) (wanted : String) : Option Translation :=
  texts.findSome? fun text =>
    if Cache.key text target = wanted then (answer text).toOption else none

namespace Cache

/-- The keys of the texts that a cache does not have, each of them once. -/
def missingKeys (cache : Cache) (texts : List String) : Finset String :=
  ((texts.map fun text => key text target).filter fun wanted => !cache.contains wanted).toFinset

/-- Whether the text at a place is asked for: the cache had nothing for its key, and no earlier
text with the key was translated. -/
def asksAt (cache : Cache) (texts : List String) (place : Nat) : Bool :=
  texts[place]?.any fun text => !cache.contains (key text target) &&
    (firstSuccess answer target (texts.take place) (key text target)).isNone

/-- The places of the texts that are asked for, in their order. -/
def askedPlaces (cache : Cache) (texts : List String) : List Nat :=
  (List.range texts.length).filter (cache.asksAt answer target texts)

/-- What there is for the text at a place: what the cache had for its key, or the first
translation of a text with the key up to this one. -/
def knownAt (cache : Cache) (texts : List String) (place : Nat) (text : String) :
    Option Translation :=
  (cache.find? (key text target)).or
    (firstSuccess answer target (texts.take (place + 1)) (key text target))

end Cache

/-- The calls for the texts at the given places, with the answers. -/
def callsAt (options : Options) (texts : List String) (places : List Nat) :
    List (Request × Option Translation) :=
  places.filterMap fun place => texts[place]?.map fun text =>
    (options.request text, (answer text).toOption)

end Answers

variable {answer : String → Except Failure Translation} {target text wanted : String}
  {texts : List String} {cache : Cache} {options : Options} {place : Nat}

/-! ## One more text -/

theorem firstSuccess_concat :
    firstSuccess answer target (texts ++ [text]) wanted =
      (firstSuccess answer target texts wanted).or
        (if Cache.key text target = wanted then (answer text).toOption else none) := by
  simp [firstSuccess, List.findSome?_append]

namespace Cache

theorem asksAt_append (more : List String) (h : place < texts.length) :
    cache.asksAt answer target (texts ++ more) place = cache.asksAt answer target texts place := by
  rw [asksAt, asksAt, List.getElem?_append_left h, List.take_append_of_le_length (Nat.le_of_lt h)]

theorem askedPlaces_concat :
    cache.askedPlaces answer target (texts ++ [text]) =
      cache.askedPlaces answer target texts ++
        if !cache.contains (key text target) &&
            (firstSuccess answer target texts (key text target)).isNone then
          [texts.length] else [] := by
  have hlast : cache.asksAt answer target (texts ++ [text]) texts.length =
      (!cache.contains (key text target) &&
        (firstSuccess answer target texts (key text target)).isNone) := by
    simp [asksAt]
  have hfirst : (List.range texts.length).filter (cache.asksAt answer target (texts ++ [text])) =
      cache.askedPlaces answer target texts := by
    apply List.filter_congr
    intro place hplace
    exact asksAt_append [text] (List.mem_range.mp hplace)
  rw [askedPlaces, List.length_append, List.length_singleton, List.range_succ,
    List.filter_append, hfirst, List.filter_singleton, hlast, cond_eq_ite]

theorem knownAt_append (more : List String) (h : place < texts.length) :
    cache.knownAt answer target (texts ++ more) place text =
      cache.knownAt answer target texts place text := by
  rw [knownAt, knownAt, List.take_append_of_le_length h]

theorem lt_of_mem_askedPlaces (h : place ∈ cache.askedPlaces answer target texts) :
    place < texts.length :=
  List.mem_range.mp (List.mem_of_mem_filter h)

theorem missingKeys_subset (more : List String) :
    cache.missingKeys target texts ⊆ cache.missingKeys target (texts ++ more) := by
  intro wanted hmem
  simp only [missingKeys, List.mem_toFinset, List.mem_filter, List.map_append,
    List.mem_append] at hmem ⊢
  exact ⟨Or.inl hmem.1, hmem.2⟩

theorem mem_missingKeys (h : ¬ cache.contains (key text target) = true) :
    key text target ∈ cache.missingKeys target (texts ++ [text]) := by
  simp [missingKeys, h]

end Cache

theorem callsAt_append {first second : List Nat} :
    callsAt answer options texts (first ++ second) =
      callsAt answer options texts first ++ callsAt answer options texts second :=
  List.filterMap_append

theorem callsAt_append_texts {places : List Nat} (more : List String)
    (h : ∀ place ∈ places, place < texts.length) :
    callsAt answer options (texts ++ more) places = callsAt answer options texts places := by
  apply List.filterMap_congr
  intro place hplace
  rw [List.getElem?_append_left (h place hplace)]

/-! ## The places that are asked for -/

theorem firstSuccess_eq_none_iff :
    firstSuccess answer target texts wanted = none ↔
      ∀ text ∈ texts, Cache.key text target = wanted → (answer text).toOption = none := by
  simp [firstSuccess]

namespace Cache

/-- A text is asked for when the cache has nothing for its key and every earlier text with the
key fails. -/
theorem mem_askedPlaces :
    place ∈ cache.askedPlaces answer target texts ↔
      ∃ text, texts[place]? = some text ∧ cache.find? (key text target) = none ∧
        ∀ other ∈ texts.take place, key other target = key text target →
          (answer other).toOption = none := by
  have hasks : cache.asksAt answer target texts place = true ↔
      ∃ text, texts[place]? = some text ∧ cache.find? (key text target) = none ∧
        firstSuccess answer target (texts.take place) (key text target) = none := by
    simp [asksAt, Option.any_eq_true, contains_eq]
  simp only [askedPlaces, List.mem_filter, List.mem_range, hasks, firstSuccess_eq_none_iff]
  constructor
  · intro h
    exact h.2
  · intro h
    obtain ⟨text, htext, hrest⟩ := h
    exact ⟨(List.getElem?_eq_some_iff.mp htext).1, text, htext, hrest⟩

end Cache

/-- A key for which a text is translated is not asked for again. -/
theorem pairwise_callsAt_askedPlaces :
    (callsAt answer options texts (cache.askedPlaces answer options.target texts)).Pairwise
      fun earlier later => earlier.1.key = later.1.key → earlier.2 = none := by
  have hincreasing : (cache.askedPlaces answer options.target texts).Pairwise (· < ·) :=
    List.pairwise_lt_range.filter _
  rw [callsAt, List.pairwise_filterMap]
  refine hincreasing.imp_of_mem ?_
  intro early late _ hlate hlt call hcall next hnext hkey
  obtain ⟨text, htext, -, hfailed⟩ := Cache.mem_askedPlaces.mp hlate
  rw [htext] at hnext
  obtain ⟨other, hother, rfl⟩ := Option.map_eq_some_iff.mp hcall
  cases hnext
  refine hfailed other ?_ hkey
  exact List.mem_take_iff_getElem.mpr (by
    obtain ⟨hbound, hget⟩ := List.getElem?_eq_some_iff.mp hother
    exact ⟨early, by omega, hget⟩)

theorem length_successes_callsAt_askedPlaces (wanted : String) :
    ((callsAt answer options texts (cache.askedPlaces answer options.target texts)).filter
      fun call => call.1.key = wanted ∧ call.2.isSome).length ≤ 1 := by
  have hpairwise : ((callsAt answer options texts
      (cache.askedPlaces answer options.target texts)).filter
        fun call => call.1.key = wanted ∧ call.2.isSome).Pairwise
          fun earlier later => earlier.1.key = later.1.key → earlier.2 = none :=
    pairwise_callsAt_askedPlaces.filter _
  have hsuccesses : ∀ call ∈ (callsAt answer options texts
      (cache.askedPlaces answer options.target texts)).filter
        fun call => call.1.key = wanted ∧ call.2.isSome, call.1.key = wanted ∧ call.2.isSome := by
    intro call hmem
    simpa using (List.mem_filter.mp hmem).2
  generalize List.filter _ _ = successes at hpairwise hsuccesses ⊢
  match successes with
  | [] => exact Nat.zero_le 1
  | [_] => exact Nat.le_refl 1
  | first :: second :: _ =>
      obtain ⟨hfirst, hsome⟩ := hsuccesses first (by simp)
      obtain ⟨hsecond, -⟩ := hsuccesses second (by simp)
      have hnone := List.rel_of_pairwise_cons hpairwise List.mem_cons_self
        (hfirst.trans hsecond.symm)
      rw [hnone] at hsome
      cases hsome

/-! ## The step -/

namespace Cache

variable {value : Translation}

theorem entries_set_of_room (hroom : cache.size < cache.capacity)
    (hnew : cache.find? wanted = none) :
    (cache.set wanted value).entries = cache.entries ++ [(wanted, value)] := by
  have hnot : ¬ cache.contains wanted = true := by simp [contains_eq, hnew]
  rw [set_of_not_contains (Nat.ne_of_gt (Nat.zero_lt_of_lt hroom)) hnot]
  exact congrArg (· ++ [(wanted, value)]) (if_pos hroom)

theorem find?_set_of_room (hroom : cache.size < cache.capacity)
    (hnew : cache.find? wanted = none) (other : String) :
    (cache.set wanted value).find? other =
      (cache.find? other).or (if wanted = other then some value else none) := by
  rw [find?, Lru.peek?, entries_set_of_room hroom hnew, List.lookup_append, find?, Lru.peek?]
  congr 1
  by_cases hsame : wanted = other
  · simp [hsame]
  · simp [List.lookup_cons, hsame, beq_eq_false_iff_ne.mpr (Ne.symm hsame)]

end Cache

namespace Session

variable {σ : Type} {session : Session σ} {translator : Translator σ}

/-- Whether a run over texts asked as little as it could: what it asked, what it came to, and
how the cache grew. -/
structure Economical (session : Session σ) (options : Options)
    (answer : String → Except Failure Translation) (texts : List String) (run : Run σ) : Prop where
  calls_eq : run.session.calls = session.calls ++ callsAt answer options texts
    (session.cache.askedPlaces answer options.target texts)
  capacity_eq : run.session.cache.capacity = session.cache.capacity
  find?_eq : ∀ wanted, run.session.cache.find? wanted =
    (session.cache.find? wanted).or (firstSuccess answer options.target texts wanted)
  /-- The keys that were stored were missing, and each was stored once. -/
  stored : ∃ stored : List String, stored.Nodup ∧
    stored.toFinset ⊆ session.cache.missingKeys options.target texts ∧
    run.session.cache.entries.map Prod.fst = session.cache.entries.map Prod.fst ++ stored
  length_eq : run.outcomes.length = texts.length
  outcome_eq : ∀ place text, texts[place]? = some text →
    ∃ outcome, run.outcomes[place]? = some outcome ∧
      outcome.toOption = session.cache.knownAt answer options.target texts place text

namespace Economical

variable {run : Run σ} {pacer : Pacer} {outcome : Except Failure Translation} {later : Session σ}

theorem nil (session : Session σ) (options : Options)
    (answer : String → Except Failure Translation) (pacer : Pacer) :
    Economical session options answer [] ⟨[], pacer, session⟩ := by
  constructor
  case calls_eq => exact (List.append_nil _).symm
  case capacity_eq => rfl
  case find?_eq =>
    intro wanted
    exact Option.or_none.symm
  case stored => exact ⟨[], List.nodup_nil, by simp, (List.append_nil _).symm⟩
  case length_eq => rfl
  case outcome_eq =>
    intro place text htext
    cases htext

/-- A text is asked for exactly when the cache has nothing for its key by then. -/
theorem asks_eq (h : Economical session options answer texts run) (wanted : String) :
    (!session.cache.contains wanted &&
      (firstSuccess answer options.target texts wanted).isNone) =
        (run.session.cache.find? wanted).isNone := by
  rw [h.find?_eq, Cache.contains_eq]
  cases session.cache.find? wanted with
  | none => rfl
  | some translation => rfl

/-- One more outcome behind the others. -/
theorem outcome_concat (h : Economical session options answer texts run)
    (houtcome : outcome.toOption = (run.session.cache.find? (Cache.key text options.target)).or
      (answer text).toOption) (place : Nat) (other : String)
    (hother : (texts ++ [text])[place]? = some other) :
    ∃ found, (run.outcomes ++ [outcome])[place]? = some found ∧ found.toOption =
      session.cache.knownAt answer options.target (texts ++ [text]) place other := by
  rcases Nat.lt_or_ge place texts.length with hplace | hplace
  · rw [List.getElem?_append_left hplace] at hother
    rw [List.getElem?_append_left (h.length_eq ▸ hplace), Cache.knownAt_append [text] hplace]
    exact h.outcome_eq place other hother
  · obtain rfl : place = texts.length := by
      obtain ⟨hlt, -⟩ := List.getElem?_eq_some_iff.mp hother
      rw [List.length_append, List.length_singleton] at hlt
      omega
    rw [List.getElem?_concat_length] at hother
    cases hother
    refine ⟨outcome, ?_, ?_⟩
    · rw [← h.length_eq, List.getElem?_concat_length]
    · rw [houtcome, h.find?_eq, Cache.knownAt, List.take_of_length_le (by simp),
        firstSuccess_concat, if_pos rfl, Option.or_assoc]

/-- A text whose key the cache has by now asks for nothing and adds nothing. -/
theorem known (h : Economical session options answer texts run) {translation : Translation}
    (hfind : run.session.cache.find? (Cache.key text options.target) = some translation) :
    Economical session options answer (texts ++ [text])
      ⟨run.outcomes ++ [.ok translation], pacer, run.session⟩ := by
  constructor
  case calls_eq =>
    rw [Cache.askedPlaces_concat, h.asks_eq, hfind, if_neg (by simp), List.append_nil,
      callsAt_append_texts [text] fun _ => Cache.lt_of_mem_askedPlaces]
    exact h.calls_eq
  case capacity_eq => exact h.capacity_eq
  case find?_eq =>
    intro wanted
    rw [firstSuccess_concat, ← Option.or_assoc, ← h.find?_eq]
    by_cases hsame : Cache.key text options.target = wanted
    · rw [← hsame, hfind, Option.some_or]
    · rw [if_neg hsame, Option.or_none]
  case stored =>
    obtain ⟨stored, hnodup, hmissing, hkeys⟩ := h.stored
    exact ⟨stored, hnodup, hmissing.trans (Cache.missingKeys_subset [text]), hkeys⟩
  case length_eq => simp [h.length_eq]
  case outcome_eq =>
    apply h.outcome_concat
    rw [hfind, Option.some_or]
    rfl

/-- A key that the cache does not have by now was missing and was not stored yet. -/
theorem exists_stored (h : Economical session options answer texts run)
    (hfind : run.session.cache.find? (Cache.key text options.target) = none) :
    ∃ stored : List String, (Cache.key text options.target :: stored).Nodup ∧
      (Cache.key text options.target :: stored).toFinset ⊆
        session.cache.missingKeys options.target (texts ++ [text]) ∧
      run.session.cache.entries.map Prod.fst = session.cache.entries.map Prod.fst ++ stored := by
  obtain ⟨stored, hnodup, hmissing, hkeys⟩ := h.stored
  have hnew : Cache.key text options.target ∉ stored := by
    intro hmem
    have hsome : (run.session.cache.find? (Cache.key text options.target)).isSome = true :=
      Cache.isSome_find?_iff.mpr (hkeys ▸ List.mem_append_right _ hmem)
    rw [hfind] at hsome
    cases hsome
  have hstart : ¬ session.cache.contains (Cache.key text options.target) = true := by
    have hasks := h.asks_eq (Cache.key text options.target)
    rw [hfind, Option.isNone_none, Bool.and_eq_true_iff, Bool.not_eq_true'] at hasks
    simp [hasks.1]
  refine ⟨stored, List.nodup_cons.mpr ⟨hnew, hnodup⟩, ?_, hkeys⟩
  intro wanted hwanted
  rcases List.mem_cons.mp (List.mem_toFinset.mp hwanted) with rfl | hmem
  · exact Cache.mem_missingKeys hstart
  · exact Cache.missingKeys_subset [text] (hmissing (List.mem_toFinset.mpr hmem))

/-- There is room for one more of the missing keys. -/
theorem size_lt (h : Economical session options answer texts run)
    (hroom : session.cache.size +
      (session.cache.missingKeys options.target (texts ++ [text])).card ≤ session.cache.capacity)
    (hfind : run.session.cache.find? (Cache.key text options.target) = none) :
    run.session.cache.size < run.session.cache.capacity := by
  obtain ⟨stored, hnodup, hmissing, hkeys⟩ := h.exists_stored hfind
  have hcard := Finset.card_le_card hmissing
  rw [List.toFinset_card_of_nodup hnodup, List.length_cons] at hcard
  have hsize := congrArg List.length hkeys
  simp only [List.length_append, List.length_map] at hsize
  rw [h.capacity_eq]
  simp only [Cache.size, Lru.size] at hroom ⊢
  omega

/-- A text whose key is missing by now is asked for, and stored when it is translated. -/
theorem asked (h : Economical session options answer texts run)
    (hroom : session.cache.size +
      (session.cache.missingKeys options.target (texts ++ [text])).card ≤ session.cache.capacity)
    (hfind : run.session.cache.find? (Cache.key text options.target) = none)
    (hcalls : later.calls =
      run.session.calls ++ [(options.request text, (answer text).toOption)])
    (hcache : later.cache = match answer text with
      | .ok translation => run.session.cache.set (Cache.key text options.target) translation
      | .error _ => run.session.cache) :
    Economical session options answer (texts ++ [text])
      ⟨run.outcomes ++ [answer text], pacer, later⟩ := by
  have hsize := h.size_lt hroom hfind
  constructor
  case calls_eq =>
    have hlast : callsAt answer options (texts ++ [text]) [texts.length] =
        [(options.request text, (answer text).toOption)] := by
      simp [callsAt]
    rw [Cache.askedPlaces_concat, h.asks_eq, hfind, Option.isNone_none, if_pos rfl, callsAt_append,
      hlast, callsAt_append_texts [text] fun _ => Cache.lt_of_mem_askedPlaces,
      ← List.append_assoc, ← h.calls_eq]
    exact hcalls
  case capacity_eq =>
    rw [← h.capacity_eq, hcache]
    cases answer text with
    | ok translation => exact Cache.capacity_set ..
    | error failure => rfl
  case find?_eq =>
    intro wanted
    rw [firstSuccess_concat, ← Option.or_assoc, ← h.find?_eq, hcache]
    cases answer text with
    | ok translation => exact Cache.find?_set_of_room hsize hfind wanted
    | error failure => simp [Except.toOption]
  case stored =>
    rw [hcache]
    cases answer text with
    | ok translation =>
        obtain ⟨stored, hnodup, hmissing, hkeys⟩ := h.exists_stored hfind
        refine ⟨stored ++ [Cache.key text options.target], ?_, ?_, ?_⟩
        · exact (List.perm_append_singleton ..).nodup_iff.mpr hnodup
        · rw [List.toFinset_eq_of_perm _ _ (List.perm_append_singleton ..)]
          exact hmissing
        · rw [Cache.entries_set_of_room hsize hfind, List.map_append, hkeys, List.append_assoc]
          rfl
    | error failure =>
        obtain ⟨stored, hnodup, hmissing, hkeys⟩ := h.stored
        exact ⟨stored, hnodup, hmissing.trans (Cache.missingKeys_subset [text]), hkeys⟩
  case length_eq => simp [h.length_eq]
  case outcome_eq =>
    apply h.outcome_concat
    rw [hfind, Option.none_or]

end Economical

/-! ## The run -/

/-- One more text in a run that nothing cancels. -/
theorem Economical.step {run : Run σ} (h : Economical session options answer texts run)
    (hcancelled : run.session.cancelled = false) (hcut : ¬ run.session.IsCut run.pacer)
    (hregistered : run.session.translator? options.provider = some translator)
    (hanswer : ∀ state, (translator (options.request text) state).outcome = answer text)
    (hroom : session.cache.size +
      (session.cache.missingKeys options.target (texts ++ [text])).card ≤
        session.cache.capacity) :
    Economical session options answer (texts ++ [text])
      (run.followedBy (run.session.runFrom run.pacer [options.request text])) := by
  cases hfind : run.session.cache.find? (Cache.key text options.target) with
  | some translation =>
      have hpaced : run.session.translatePaced run.pacer (options.request text) =
          (some (.ok translation), run.pacer, run.session) :=
        translatePaced_of_find? hcancelled hfind
      rw [runFrom_cons_of_some hpaced]
      exact h.known hfind
  | none =>
      have hpaced : run.session.translatePaced run.pacer (options.request text) =
          (some ((run.session.rested run.pacer).ask translator (options.request text)).1,
            ⟨run.pacer.requests + 1⟩,
            ((run.session.rested run.pacer).ask translator (options.request text)).2) :=
        translatePaced_of_turn hcancelled hfind hcut hregistered
      rw [runFrom_cons_of_some hpaced]
      have houtcome := hanswer (run.session.rested run.pacer).state
      simp only [runFrom, Run.followedBy, ask, houtcome]
      refine h.asked hroom hfind ?_ ?_
      · have hcalls : (run.session.rested run.pacer).calls = run.session.calls := calls_rested
        rw [← hcalls]
        simp [calls, Event.call?]
      · rw [cache_rested]
        rfl

/-- A batch in a session in which nothing cancels asks as little as it can. -/
theorem economical_run (hregistered : session.translator? options.provider = some translator)
    (hanswer : ∀ text state, (translator (options.request text) state).outcome = answer text)
    (hroom : session.cache.size + (session.cache.missingKeys options.target texts).card ≤
      session.cache.capacity) :
    Economical session.undisturbed options answer texts
      (session.undisturbed.run (texts.map options.request)) := by
  induction texts using List.reverseRecOn with
  | nil => exact .nil session.undisturbed options answer { }
  | append_singleton texts text ih =>
      have hsubset : session.cache.missingKeys options.target texts ⊆
          session.cache.missingKeys options.target (texts ++ [text]) :=
        Cache.missingKeys_subset [text]
      have hfewer := Finset.card_le_card hsubset
      have hbefore := ih (by omega)
      have hlength : (session.undisturbed.run (texts.map options.request)).outcomes.length =
          (texts.map options.request).length :=
        length_runFrom_undisturbed session { } (texts.map options.request)
      have hevolves : session.undisturbed.Evolves (fun _ => True)
          (session.undisturbed.run (texts.map options.request)).session :=
        evolves_runFrom _ _ fun _ _ => trivial
      have hquiet := hevolves.undisturbed_eq
      have hsplit : session.undisturbed.run ((texts ++ [text]).map options.request) =
          (session.undisturbed.run (texts.map options.request)).followedBy
            ((session.undisturbed.run (texts.map options.request)).session.runFrom
              (session.undisturbed.run (texts.map options.request)).pacer
              [options.request text]) := by
        rw [List.map_append]
        exact runFrom_append [options.request text] hlength
      rw [hsplit]
      have hasked : (session.undisturbed.run (texts.map options.request)).session.translator?
          options.provider = some translator.quiet := by
        rw [translator?, hevolves.translators_eq]
        exact (translator?_undisturbed session options.provider).trans
          (congrArg (Option.map Translator.quiet) hregistered)
      refine hbefore.step ?_ ?_ hasked (hanswer text) hroom
      · rw [← hquiet]
        rfl
      · rw [← hquiet]
        intro hcut
        cases hcut.2

/-! ## Batches -/

/-- A batch whose provider answers by the text, in a cache with room for the keys that are
missing, asks for no text that it could know, and for each key there is one success at most. A
text has what the cache had for it at the start, or else the first translation for its key up to
its own; failing both it stands for itself. -/
theorem economical_translateWholeBatch
    (hregistered : session.translator? options.provider = some translator)
    (hanswer : ∀ text state, (translator (options.request text) state).outcome = answer text)
    (hroom : session.cache.size + (session.cache.missingKeys options.target texts).card ≤
      session.cache.capacity) :
    let batch := session.translateWholeBatch options texts
    let asked := callsAt answer options texts
      (session.cache.askedPlaces answer options.target texts)
    batch.2.calls = session.calls ++ asked ∧
      (∀ wanted, (asked.filter fun call => call.1.key = wanted ∧ call.2.isSome).length ≤ 1) ∧
      batch.1.length = texts.length ∧
      ∀ place text, texts[place]? = some text →
        batch.1[place]? = some
          ((session.cache.knownAt answer options.target texts place text).getD
            (options.passthrough text)) := by
  have h := economical_run hregistered hanswer hroom
  rw [run, runFrom_undisturbed_eq] at h
  refine ⟨h.calls_eq, length_successes_callsAt_askedPlaces, ?_, ?_⟩
  · simp only [translateWholeBatch, orPassthrough, List.length_map, List.length_zip]
    exact Nat.min_eq_left h.length_eq.ge
  · intro place text htext
    obtain ⟨outcome, houtcome, hknown⟩ := h.outcome_eq place text htext
    have hzip :
        (texts.zip (session.runWholeFrom { } (texts.map options.request)).outcomes)[place]? =
          some (text, outcome) := List.getElem?_zip_eq_some.mpr ⟨htext, houtcome⟩
    have hcache : session.undisturbed.cache = session.cache := rfl
    rw [← hcache, ← hknown]
    simp only [translateWholeBatch, orPassthrough, List.getElem?_map, hzip, Option.map_some]
    cases outcome <;> rfl

/-- The answers of a provider that does not get one of the texts. -/
def tightAnswer (text : String) : Except Failure Translation :=
  if text = "A" then .error (.transport .google .noAnswer) else .ok ⟨text ++ "!", none, "en"⟩

/-- A provider that counts its calls. -/
def tightTranslator : Translator Nat := fun request count =>
  { outcome := tightAnswer request.text, cancels := true, state := count + 1 }

/-- A session whose cache knows one text and has room for one more key. -/
def tightSession : Session Nat where
  translators := [(.google, tightTranslator)]
  pause := fun count => (true, count + 1)
  delay := 5
  cache := { capacity := 2, entries := [("b::en", ⟨"B?", none, "en"⟩)] }
  state := 0

/-- The first text fails, the second one has the same key and is translated, the third has it
from there, and the last was known. -/
theorem economical_translateWholeBatch_retried :
    let batch := tightSession.translateWholeBatch { } ["A", " a", "a", "b "]
    batch.2.calls = [(⟨"A", { }⟩, none), (⟨" a", { }⟩, some ⟨" a!", none, "en"⟩)] ∧
      batch.1[2]? = some ⟨" a!", none, "en"⟩ := by
  intro batch
  have hregistered : tightSession.translator? ({ } : Options).provider = some tightTranslator :=
    rfl
  have hanswer : ∀ text count,
      (tightTranslator (({ } : Options).request text) count).outcome = tightAnswer text :=
    fun _ _ => rfl
  have hroom : tightSession.cache.size +
      (tightSession.cache.missingKeys "en" ["A", " a", "a", "b "]).card ≤
        tightSession.cache.capacity := by decide
  obtain ⟨hcalls, -, -, htexts⟩ := economical_translateWholeBatch hregistered hanswer hroom
  exact ⟨hcalls.trans (by decide), (htexts 2 "a" rfl).trans (by decide)⟩

end Session

end Marginalia
