import Marginalia.Failure
import Marginalia.Text.Blank

/-! # Requests and translations

What a translation service is asked, and what it answers.
-/

namespace Marginalia

/-- What the requests of a run have in common. -/
structure Options where
  /-- The code of the source language, or `auto`. -/
  source : String := "auto"
  target : String := "en"
  provider : Provider := .google
  /-- The base URL of the service, which LibreTranslate needs. -/
  endpoint : Option String := none
  deriving DecidableEq, Repr

structure Request where
  text : String
  options : Options
  deriving DecidableEq, Repr

structure Translation where
  text : String
  /-- The source language, as it was detected or declared. -/
  source : Option String
  target : String
  deriving DecidableEq, Repr

namespace Options

def request (options : Options) (text : String) : Request := ⟨text, options⟩

/-- What stands in for a translation that failed: the text itself. -/
def passthrough (options : Options) (text : String) : Translation :=
  ⟨text, some options.source, options.target⟩

end Options

end Marginalia
