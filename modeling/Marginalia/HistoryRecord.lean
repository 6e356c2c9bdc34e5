import Marginalia.Data.Decode
import Marginalia.Document
import Marginalia.Json.Parser
import Marginalia.Json.Printer
import Marginalia.Timestamp

/-! # Recorded changes

The form in which a change of the undo history is exchanged: the change and when it was made,
as JSON.
-/

namespace Marginalia

/-- A change with the time at which it was made. -/
structure HistoryRecord where
  edit : Edit
  madeAt : Timestamp
  deriving DecidableEq, Repr

namespace HistoryRecord

def ofData? (data : Data) : Option HistoryRecord := do
  let fields ← data.fields? .json ["line_number", "original_text", "translated_text", "timestamp"]
  let line ← fields.required "line_number" Data.asCount?
  let before ← fields.required "original_text" Data.asText?
  let after ← fields.required "translated_text" Data.asText?
  let madeAt ← fields.required "timestamp" fun value => value.asText?.bind Timestamp.parse?
  return ⟨⟨line, before, after⟩, madeAt⟩

def parse? (source : String) : Option HistoryRecord := (Json.parse? source).bind ofData?

def toData (record : HistoryRecord) : Data :=
  .ofFields [("line_number", .ofNat record.edit.line),
    ("original_text", .ofString record.edit.before),
    ("translated_text", .ofString record.edit.after),
    ("timestamp", .ofString record.madeAt.render)]

def render (record : HistoryRecord) : String := Json.compact record.toData

end HistoryRecord

end Marginalia
