import Marginalia.Json.Parser
import Marginalia.Json.Printer
import Marginalia.Service.Google
import Marginalia.Service.Http
import Marginalia.Service.Libre
import Marginalia.Settings
import Marginalia.Translation.Session

/-! # Clients of the services

The translators that ask the services over the network. A refusal is a failure with the status
and the trimmed body of the answer, whose body counts as empty when it broke off.
-/

namespace Marginalia

/-- The failure of a service that refused. -/
def refusal (provider : Provider) (status : Nat) (body : List UInt8) (complete : Bool) : Failure :=
  let text := if complete then Text.trim (Text.decodeLossy body) else ""
  .transport provider (.status status (Http.reason? status) text)

/-- The body of an answer that tells of success and is complete. -/
def successBody (provider : Provider) : Http.Answer → Except Failure (List UInt8)
  | .nothing => .error (.transport provider .noAnswer)
  | .response status body complete =>
    if !Http.isSuccess status then .error (refusal provider status body complete)
    else if !complete then .error (.transport provider .brokenOff)
    else .ok body

namespace Google

def publicEndpoint : String := "https://translate.googleapis.com/translate_a/single"

/-- What is sent to translate a text. -/
def exchange (endpoint : String) (request : Request) : Http.Exchange where
  address := endpoint
  payload := .query [("client", "gtx"), ("sl", request.options.source),
    ("tl", request.options.target), ("dt", "t"), ("q", request.text)]

/-- The translation in what came back, which has to be sound JSON. -/
def read (request : Request) (answer : Http.Answer) : Except Failure Translation := do
  let body ← successBody .google answer
  match (Text.decode? body).bind Json.parseSound? with
  | some value => decode value request
  | none => throw (.transport .google .malformed)

def client {σ : Type} (network : Http.Network σ) (endpoint : String) : Translator σ :=
  fun request state =>
    let (answer, state) := network (exchange endpoint request) state
    ⟨read request answer, false, state⟩

end Google

namespace Libre

/-- What is sent to translate a text. -/
def exchange (url : String) (request : Request) : Http.Exchange where
  address := url
  payload := .json (Json.compact (.ofFields [("q", .ofString request.text),
    ("source", .ofString request.options.source), ("target", .ofString request.options.target),
    ("format", .ofString "text")]))

def read (request : Request) (answer : Http.Answer) : Except Failure Translation := do
  decode (Text.decodeLossy (← successBody .libreTranslate answer)) request

/-- The translator that asks the instance of LibreTranslate that a request names. -/
def client {σ : Type} (network : Http.Network σ) : Translator σ :=
  fun request state =>
    match translateUrl request.options.endpoint with
    | .error failure => ⟨.error failure, false, state⟩
    | .ok url =>
      let (answer, state) := network (exchange url request) state
      ⟨read request answer, false, state⟩

end Libre

/-- The session that settings ask for, with a client for each service. -/
def Session.ofSettings {σ : Type} (settings : TranslateSettings) (network : Http.Network σ)
    (pause : σ → Bool × σ) (state : σ) : Session σ where
  translators := [(.google, Google.client network Google.publicEndpoint),
    (.libreTranslate, Libre.client network)]
  pause
  delay := settings.delay
  cache := { capacity := settings.cacheCapacity }
  state

end Marginalia
