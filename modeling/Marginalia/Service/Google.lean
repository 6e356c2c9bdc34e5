import Marginalia.Data.Basic
import Marginalia.Translation.Basic

/-! # Answers of Google

Google answers with nested lists: item 0 lists the translated segments, each of which has its
text in front, and item 2 is the detected source language.
-/

namespace Marginalia.Google

/-- The text of a segment, if it has a text in front. -/
def segmentText? (segment : Data) : Option String := (segment.item? 0).bind Data.asText?

def joinSegments (segments : List Data) : String := String.join (segments.filterMap segmentText?)

/-- The source language of an answer: the detected one if there is one, else the declared one. -/
def sourceOf (detected : Option String) (declared : String) : String :=
  match detected with
  | some language => if language.isEmpty then declared else language
  | none => declared

/-- The translation in an answer. Only the joined text is trimmed. -/
def decode (body : Data) (request : Request) : Except Failure Translation :=
  match (body.item? 0).bind Data.asList? with
  | none => .error (.transport .google .missingSegments)
  | some segments =>
    .ok {
      text := Text.trim (joinSegments segments)
      source := some (sourceOf ((body.item? 2).bind Data.asText?) request.options.source)
      target := request.options.target }

end Marginalia.Google
