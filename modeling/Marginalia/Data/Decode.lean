import Marginalia.Data.Basic

/-! # Reading structures out of structured data

A structure with named fields is written as a record of its fields, where unknown entries are
ignored, or as a list of the fields' values in their order. A choice between names is written
as the name, or as a record with the name as its only entry.
-/

namespace Marginalia

/-- What the two formats do differently when a structure is read. -/
structure Dialect where
  /-- Whether a list may have items beyond the fields of the structure. -/
  allowsExtraItems : Bool
  /-- The values that a chosen name may carry when it is written as a record. -/
  isUnit : Data → Bool

namespace Dialect

/-- JSON takes lists of the exact length only, and a chosen name carries `null`. -/
def json : Dialect where
  allowsExtraItems := false
  isUnit
    | .null => true
    | _ => false

/-- TOML ignores further items, and a chosen name carries an empty list or an empty record. -/
def toml : Dialect where
  allowsExtraItems := true
  isUnit
    | .list [] => true
    | .record [] => true
    | _ => false

end Dialect

/-- The fields that a value gives to a structure. -/
structure Fields where
  /-- Whether the fields were given by name, so that one that is missing was left out. -/
  byName : Bool
  find : String → Option Data

namespace Fields

/-- A field that must be there. -/
def required {α : Type} (fields : Fields) (name : String) (read : Data → Option α) : Option α :=
  (fields.find name).bind read

/-- A field that has a default. -/
def orDefault {α : Type} (fields : Fields) (name : String) (read : Data → Option α)
    (default : α) : Option α :=
  match fields.find name with
  | some value => read value
  | none => some default

/-- Reads a value that may also be `null`. -/
def nullable {α : Type} (read : Data → Option α) : Data → Option (Option α)
  | .null => some none
  | value => (read value).map some

/-- A field that may be left out when fields are given by name, but not in a list. -/
def optional {α : Type} (fields : Fields) (name : String) (read : Data → Option α) :
    Option (Option α) :=
  match fields.find name with
  | some value => nullable read value
  | none => if fields.byName then some none else none

end Fields

namespace Data

/-- The fields with the given names, in this order. A field that is given twice, or an entry
whose name is no text, makes the value unreadable. -/
def fields? (dialect : Dialect) (names : List String) : Data → Option Fields
  | record entries =>
    if entries.any (·.1.isNone) then none
    else if names.any fun name => 1 < (entries.filter (·.1 == some name)).length then none
    else some ⟨true, fun name => entries.lookup (some name)⟩
  | list items =>
    if !dialect.allowsExtraItems && names.length < items.length then none
    else some ⟨false, fun name => (names.zip items).lookup name⟩
  | _ => none

/-- The name that a choice between names selects. -/
def choice? (dialect : Dialect) : Data → Option String
  | text name => name
  | record [(name, carried)] => if dialect.isUnit carried then name else none
  | _ => none

end Data

end Marginalia
