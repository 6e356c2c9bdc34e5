import Marginalia.Text.Utf8

/-! # Exchanges over HTTP

What the clients of the services ask of the network, and what can come back. The network
itself is a parameter: a function on a state of its own.
-/

namespace Marginalia.Http

/-- What is sent to an address. -/
inductive Payload
  /-- Pairs that are added to the query of the address, to be fetched. -/
  | query (pairs : List (String × String))
  /-- A JSON text that is posted. -/
  | json (body : String)
  deriving DecidableEq, Repr

structure Exchange where
  address : String
  payload : Payload
  deriving DecidableEq, Repr

/-- What comes back. -/
inductive Answer
  /-- The address is none, nobody listens there, or the connection was closed. -/
  | nothing
  /-- A status and a body, which is complete unless the connection broke off. -/
  | response (status : Nat) (body : List UInt8) (complete : Bool)
  deriving DecidableEq, Repr

/-- A network: it answers requests, out of a state that it changes as it goes. -/
abbrev Network (σ : Type) := Exchange → σ → Answer × σ

/-- The network that reaches nobody. -/
def offline {σ : Type} : Network σ := fun _ state => (.nothing, state)

def isSuccess (status : Nat) : Bool := 200 ≤ status && status < 300

/-- The reason that goes with a status. -/
def reason? : Nat → Option String
  | 100 => some "Continue"
  | 101 => some "Switching Protocols"
  | 102 => some "Processing"
  | 200 => some "OK"
  | 201 => some "Created"
  | 202 => some "Accepted"
  | 203 => some "Non Authoritative Information"
  | 204 => some "No Content"
  | 205 => some "Reset Content"
  | 206 => some "Partial Content"
  | 207 => some "Multi-Status"
  | 208 => some "Already Reported"
  | 226 => some "IM Used"
  | 300 => some "Multiple Choices"
  | 301 => some "Moved Permanently"
  | 302 => some "Found"
  | 303 => some "See Other"
  | 304 => some "Not Modified"
  | 305 => some "Use Proxy"
  | 307 => some "Temporary Redirect"
  | 308 => some "Permanent Redirect"
  | 400 => some "Bad Request"
  | 401 => some "Unauthorized"
  | 402 => some "Payment Required"
  | 403 => some "Forbidden"
  | 404 => some "Not Found"
  | 405 => some "Method Not Allowed"
  | 406 => some "Not Acceptable"
  | 407 => some "Proxy Authentication Required"
  | 408 => some "Request Timeout"
  | 409 => some "Conflict"
  | 410 => some "Gone"
  | 411 => some "Length Required"
  | 412 => some "Precondition Failed"
  | 413 => some "Payload Too Large"
  | 414 => some "URI Too Long"
  | 415 => some "Unsupported Media Type"
  | 416 => some "Range Not Satisfiable"
  | 417 => some "Expectation Failed"
  | 418 => some "I'm a teapot"
  | 421 => some "Misdirected Request"
  | 422 => some "Unprocessable Entity"
  | 423 => some "Locked"
  | 424 => some "Failed Dependency"
  | 426 => some "Upgrade Required"
  | 428 => some "Precondition Required"
  | 429 => some "Too Many Requests"
  | 431 => some "Request Header Fields Too Large"
  | 451 => some "Unavailable For Legal Reasons"
  | 500 => some "Internal Server Error"
  | 501 => some "Not Implemented"
  | 502 => some "Bad Gateway"
  | 503 => some "Service Unavailable"
  | 504 => some "Gateway Timeout"
  | 505 => some "HTTP Version Not Supported"
  | 506 => some "Variant Also Negotiates"
  | 507 => some "Insufficient Storage"
  | 508 => some "Loop Detected"
  | 510 => some "Not Extended"
  | 511 => some "Network Authentication Required"
  | _ => none

end Marginalia.Http
