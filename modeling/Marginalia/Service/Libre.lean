import Marginalia.Data.Decode
import Marginalia.Json.Parser
import Marginalia.Service.Google

/-! # Addresses and answers of LibreTranslate

An instance of LibreTranslate is named by a base URL, which has to be set. It answers with a
record of the translated text and, if it detected one, the source language.
-/

namespace Marginalia.Libre

/-- The address that translates, at the instance with the base URL. -/
def translateUrl (endpoint : Option String) : Except Failure String :=
  let base := Text.trimList (endpoint.getD "").toList
  if base.isEmpty then .error (.setting .missingUrl)
  else
    .ok (String.ofList ((base.reverse.dropWhile (· == '/')).reverse) ++ "/translate")

/-- Reads the language out of what was detected. -/
def detectedOfData? (data : Data) : Option (Option String) := do
  let fields ← data.fields? .json ["language"]
  fields.optional "language" Data.asText?

/-- Reads the translated text and the detected language, if there is one. -/
def answerOfData? (data : Data) : Option (String × Option String) := do
  let fields ← data.fields? .json ["translatedText", "detectedLanguage"]
  let text ← fields.required "translatedText" Data.asText?
  let detected ← fields.optional "detectedLanguage" detectedOfData?
  return (text, detected.join)

/-- The translation in an answer. -/
def decode (body : String) (request : Request) : Except Failure Translation :=
  match (Json.parse? body).bind answerOfData? with
  | none => .error (.transport .libreTranslate .malformed)
  | some (text, detected) =>
    .ok {
      text
      source := some (Google.sourceOf detected request.options.source)
      target := request.options.target }

end Marginalia.Libre
