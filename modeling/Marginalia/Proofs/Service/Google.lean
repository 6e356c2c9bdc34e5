import Marginalia.Service.Google
import Mathlib.Logic.Relation

/-! # Answers of Google count by their joined text

An answer is a list whose first item lists segments, and nothing else is. Of the segments only the
texts in front count, joined in their order: a segment without such a text may stand anywhere, and
a text may be divided over several segments wherever one likes, since blanks are trimmed off the
joined text alone.
-/

namespace Marginalia

namespace Data

variable {data front : Data} {text : String} {items : List Data}

theorem item?_zero_eq_some_iff :
    data.item? 0 = some front ↔ ∃ others, data = .list (front :: others) := by
  cases data with
  | list items => cases items <;> simp [item?, eq_comm]
  | _ => simp [item?]

theorem asText?_eq_some_iff : data.asText? = some text ↔ data = .ofString text := by
  cases data <;> simp [asText?, ofString]

theorem asList?_eq_some_iff : data.asList? = some items ↔ data = .list items := by
  cases data <;> simp [asList?]

end Data

namespace Google

/-- A segment with the text in front of others. -/
def segment (text : String) (others : List Data) : Data := .list (.ofString text :: others)

/-- An answer with the segments in front of others. -/
def answer (segments others : List Data) : Data := .list (.list segments :: others)

/-- Whether a segment has a text in front. -/
def HasText (part : Data) : Prop := ∃ text others, part = segment text others

/-- The changes to a list of segments that leave what is said: a segment without a text in front
comes in, a text is divided over segments that stand in the place of its own, and what is behind the
front of a segment changes. -/
inductive Rewording : List Data → List Data → Prop
  | insert (before after : List Data) {part : Data} (h : ¬ HasText part) :
    Rewording (before ++ after) (before ++ part :: after)
  | divide (before after others : List Data) {text : String} (pieces : List (String × List Data))
    (h : String.join (pieces.map Prod.fst) = text) :
    Rewording (before ++ segment text others :: after)
      (before ++ (pieces.map fun piece => segment piece.1 piece.2) ++ after)
  | change (before after : List Data) (front : Data) (others new : List Data) :
    Rewording (before ++ .list (front :: others) :: after)
      (before ++ .list (front :: new) :: after)

/-- Changes of that kind one after the other, made or taken back. -/
def SaysSame : List Data → List Data → Prop := Relation.EqvGen Rewording

variable {part body : Data} {segments first second others : List Data} {text : String}
  {request : Request} {failure : Failure}

/-! ## Segments -/

theorem segmentText?_segment : segmentText? (segment text others) = some text := rfl

theorem segmentText?_eq_some_iff :
    segmentText? part = some text ↔ ∃ others, part = segment text others := by
  rw [segmentText?, Option.bind_eq_some_iff]
  simp only [Data.item?_zero_eq_some_iff, Data.asText?_eq_some_iff]
  constructor
  · rintro ⟨_, ⟨others, rfl⟩, rfl⟩
    exact ⟨others, rfl⟩
  · rintro ⟨others, rfl⟩
    exact ⟨_, ⟨others, rfl⟩, rfl⟩

theorem segmentText?_eq_none_iff : segmentText? part = none ↔ ¬ HasText part := by
  rw [Option.eq_none_iff_forall_ne_some, HasText, not_exists]
  exact forall_congr' fun text => not_congr segmentText?_eq_some_iff

/-! ## The joined text -/

theorem joinSegments_append (first second : List Data) :
    joinSegments (first ++ second) = joinSegments first ++ joinSegments second := by
  rw [joinSegments, List.filterMap_append, String.join_append]
  rfl

theorem joinSegments_cons_of_not_hasText (h : ¬ HasText part) :
    joinSegments (part :: segments) = joinSegments segments := by
  rw [joinSegments, List.filterMap_cons_none (segmentText?_eq_none_iff.mpr h)]
  rfl

theorem joinSegments_cons_segment :
    joinSegments (segment text others :: segments) = text ++ joinSegments segments := by
  rw [joinSegments, List.filterMap_cons_some segmentText?_segment, String.join_cons]
  rfl

theorem joinSegments_cons_list (front : Data) (others new segments : List Data) :
    joinSegments (.list (front :: others) :: segments) =
      joinSegments (.list (front :: new) :: segments) := by
  rw [joinSegments, joinSegments, List.filterMap_cons, List.filterMap_cons]
  rfl

theorem joinSegments_pieces (pieces : List (String × List Data)) :
    joinSegments (pieces.map fun piece => segment piece.1 piece.2) =
      String.join (pieces.map Prod.fst) := by
  rw [joinSegments, List.filterMap_map, ← List.filterMap_eq_map]
  rfl

/-- The step: one change leaves the joined text. -/
theorem Rewording.joinSegments_eq (h : Rewording first second) :
    joinSegments first = joinSegments second := by
  cases h with
  | insert before after h =>
      rw [joinSegments_append, joinSegments_append, joinSegments_cons_of_not_hasText h]
  | divide before after others pieces h =>
      rw [List.append_assoc, joinSegments_append, joinSegments_append, joinSegments_append,
        joinSegments_cons_segment, joinSegments_pieces, h]
  | change before after front others new =>
      rw [joinSegments_append, joinSegments_append, joinSegments_cons_list front others new]

/-- The run: any number of changes leave the joined text. -/
theorem SaysSame.joinSegments_eq (h : SaysSame first second) :
    joinSegments first = joinSegments second := by
  induction h with
  | rel _ _ hstep => exact hstep.joinSegments_eq
  | refl _ => rfl
  | symm _ _ _ ih => exact ih.symm
  | trans _ _ _ _ _ ih ih' => exact ih.trans ih'

/-! ## One segment for all -/

theorem Rewording.cons (h : Rewording first second) (part : Data) :
    Rewording (part :: first) (part :: second) := by
  cases h with
  | insert before after h => exact .insert (part :: before) after h
  | divide before after others pieces h => exact .divide (part :: before) after others pieces h
  | change before after front others new =>
      exact .change (part :: before) after front others new

theorem SaysSame.cons (h : SaysSame first second) (part : Data) :
    SaysSame (part :: first) (part :: second) := by
  induction h with
  | rel _ _ hstep => exact .rel _ _ (hstep.cons part)
  | refl _ => exact .refl _
  | symm _ _ _ ih => exact ih.symm
  | trans _ _ _ _ _ ih ih' => exact ih.trans _ _ _ ih'

/-- Any segments can be changed into one that has the joined text. -/
theorem saysSame_joined (segments : List Data) :
    SaysSame segments [segment (joinSegments segments) []] := by
  induction segments with
  | nil => exact .symm _ _ (.rel _ _ (.divide [] [] [] [] rfl))
  | cons part segments ih =>
      refine .trans _ _ _ (ih.cons part) ?_
      by_cases h : HasText part
      · -- The text in front and the joined text of the others are pieces of the joined text.
        obtain ⟨text, others, rfl⟩ := h
        rw [joinSegments_cons_segment]
        exact .symm _ _ (.rel _ _ (.divide [] [] []
          [(text, others), (joinSegments segments, [])] (by simp)))
      · rw [joinSegments_cons_of_not_hasText h]
        exact .symm _ _ (.rel _ _ (.insert [] _ h))

/-- The changes lead to all segments with the same joined text, and to no others. -/
theorem saysSame_iff : SaysSame first second ↔ joinSegments first = joinSegments second := by
  refine ⟨SaysSame.joinSegments_eq, fun h => ?_⟩
  have hsecond := saysSame_joined second
  rw [← h] at hsecond
  exact .trans _ _ _ (saysSame_joined first) (.symm _ _ hsecond)

/-! ## Answers -/

/-- The source language of an answer: that of the third item if this is a text and not empty, and
otherwise the one that was asked for. -/
structure IsSource (third : Option Data) (declared source : String) : Prop where
  detected : ∀ language, third = some (.ofString language) → language ≠ "" → source = language
  declared : (∀ language, third = some (.ofString language) → language = "") → source = declared

theorem isSource_sourceOf (third : Option Data) (declared : String) :
    IsSource third declared (sourceOf (third.bind Data.asText?) declared) := by
  constructor
  case detected =>
    rintro language rfl hne
    simp [sourceOf, Data.ofString, Data.asText?, hne]
  case declared =>
    intro hnone
    unfold sourceOf
    split
    next language hlanguage =>
      obtain ⟨value, rfl, htext⟩ := Option.bind_eq_some_iff.mp hlanguage
      obtain rfl := Data.asText?_eq_some_iff.mp htext
      simp [hnone language rfl]
    next => rfl

theorem decode_answer (segments others : List Data) (request : Request) :
    decode (answer segments others) request = .ok {
      text := Text.trim (joinSegments segments)
      source := some (sourceOf (others[1]?.bind Data.asText?) request.options.source)
      target := request.options.target } := rfl

/-- What is no answer with segments fails for that reason. -/
theorem decode_cases (body : Data) (request : Request) :
    (∃ segments others, body = answer segments others) ∨
      ((∀ segments others, body ≠ answer segments others) ∧
        decode body request = .error (.transport .google .missingSegments)) := by
  by_cases h : ∃ segments others, body = answer segments others
  · exact Or.inl h
  · have hnone : (body.item? 0).bind Data.asList? = none := by
      rw [Option.eq_none_iff_forall_ne_some]
      intro segments hsegments
      obtain ⟨front, hfront, hlist⟩ := Option.bind_eq_some_iff.mp hsegments
      obtain rfl := Data.asList?_eq_some_iff.mp hlist
      obtain ⟨others, rfl⟩ := Data.item?_zero_eq_some_iff.mp hfront
      exact h ⟨segments, others, rfl⟩
    right
    refine ⟨fun segments others hbody => h ⟨segments, others, hbody⟩, ?_⟩
    unfold decode
    rw [hnone]

/-- A body is read exactly when it is a list with a list of segments in front, and the failure of
any other is one of the transport that bears the name of the service. What is read is the joined
text of the segments without the blanks at its ends, the source language and the target language
that was asked for. Nothing else in the body makes a difference: not how the text is divided over
segments, nor segments without a text and what is behind the texts, nor an item that is neither the
first nor the third. The changes of this kind lead to all segments with the same joined text. -/
theorem decode_of_saysSame (body : Data) (request : Request) :
    ((∃ translation, decode body request = .ok translation) ↔
      ∃ segments others, body = answer segments others) ∧
    (∀ failure, decode body request = .error failure →
      failure = .transport .google .missingSegments ∧ failure.message =
        "Google Translate error: unexpected response shape: no translation segments") ∧
    ∀ segments others, body = answer segments others →
      (∃ source, IsSource others[1]? request.options.source source ∧
        decode body request = .ok {
          text := Text.trim (String.join (segments.filterMap segmentText?))
          source := some source
          target := request.options.target }) ∧
      ∀ reworded changed,
        (SaysSame segments reworded ↔ joinSegments segments = joinSegments reworded) ∧
        (SaysSame segments reworded → changed[1]? = others[1]? →
          decode (answer reworded changed) request = decode body request) := by
  refine ⟨⟨fun ⟨translation, hok⟩ => ?_, ?_⟩, fun failure herror => ?_,
    fun segments others hbody => ⟨?_, fun reworded changed => ⟨saysSame_iff, ?_⟩⟩⟩
  · rcases decode_cases body request with h | ⟨-, hfails⟩
    · exact h
    · rw [hfails] at hok
      cases hok
  · rintro ⟨segments, others, rfl⟩
    exact ⟨_, decode_answer segments others request⟩
  · rcases decode_cases body request with ⟨segments, others, rfl⟩ | ⟨-, hfails⟩
    · rw [decode_answer] at herror
      cases herror
    · rw [hfails] at herror
      cases herror
      exact ⟨rfl, by decide⟩
  · subst hbody
    exact ⟨_, isSource_sourceOf others[1]? request.options.source,
      decode_answer segments others request⟩
  · intro hsame hthird
    subst hbody
    rw [decode_answer, decode_answer, hsame.joinSegments_eq, hthird]

/-- A text that is divided at a blank, with segments that have no text in between, and a list
without segments. -/
theorem decode_of_saysSame_greeting :
    ∃ request segments reworded others changed failure,
      segments = [segment " Hello world " [.ofString "Hola"]] ∧
      reworded = [segment " Hello " [], .null, .list [.null], segment "world " []] ∧
      others = [.null, .ofString "es"] ∧ changed = [.bool true, .ofString "es", .null] ∧
      SaysSame segments reworded ∧ changed[1]? = others[1]? ∧
      decode (answer segments others) request = .ok ⟨"Hello world", some "es", "en"⟩ ∧
      decode (answer reworded changed) request = decode (answer segments others) request ∧
      decode (.list (.null :: segments)) request = .error failure ∧
      failure.message =
        "Google Translate error: unexpected response shape: no translation segments" := by
  let request : Request := ⟨"Hola mundo", { source := "auto", target := "en" }⟩
  let segments := [segment " Hello world " [.ofString "Hola"]]
  let reworded := [segment " Hello " [], .null, .list [.null], segment "world " []]
  let others : List Data := [.null, .ofString "es"]
  have hclaim := (decode_of_saysSame (answer segments others) request).2.2 segments others rfl
  have hsame : SaysSame segments reworded :=
    (hclaim.2 reworded others).1.mpr (by decide +kernel)
  have hfails := (decode_of_saysSame (.list (.null :: segments)) request).2.1 _ rfl
  obtain ⟨source, hsource, hread⟩ := hclaim.1
  refine ⟨request, segments, reworded, others, [.bool true, .ofString "es", .null], _, rfl, rfl,
    rfl, rfl, hsame, rfl, ?_, (hclaim.2 reworded _).2 hsame rfl, rfl, hfails.2⟩
  have htext : Text.trim (String.join (segments.filterMap segmentText?)) = "Hello world" := by
    decide +kernel
  rw [hread, htext, hsource.detected "es" rfl (by decide)]

end Google

end Marginalia
