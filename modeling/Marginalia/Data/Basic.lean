/-! # Structured data

The values that configuration files, pattern tables and answers of translation services are
made of. Both formats that are read, JSON and TOML, produce them.
-/

namespace Marginalia

/-- A structured value. A text is `none` when an escape in it left half a surrogate pair, so
that it denotes no text; the same holds for the name of an entry. -/
inductive Data
  | null
  | bool (value : Bool)
  | integer (value : Int)
  /-- A number that is no integer, as it was written. -/
  | real (literal : String)
  | text (value : Option String)
  | list (items : List Data)
  /-- Named entries in their written order; a name may come twice. -/
  | record (entries : List (Option String × Data))
  deriving Inhabited

namespace Data

def ofString (value : String) : Data := text (some value)

def ofNat (value : Nat) : Data := integer value

def ofFields (fields : List (String × Data)) : Data :=
  record (fields.map fun (name, value) => (some name, value))

/-- The value, or `null` when there is none. -/
def ofOption (value : Option Data) : Data := value.getD null

def asText? : Data → Option String
  | text value => value
  | _ => none

/-- The count that an integer gives, unless it is negative. -/
def asCount? : Data → Option Nat
  | integer (.ofNat value) => some value
  | _ => none

def asList? : Data → Option (List Data)
  | list items => some items
  | _ => none

def asTexts? : Data → Option (List String)
  | list items => items.mapM asText?
  | _ => none

def item? (index : Nat) : Data → Option Data
  | list items => items[index]?
  | _ => none

/-- The first entry of a record with the name. -/
def entry? (name : String) : Data → Option Data
  | record entries => entries.lookup (some name)
  | _ => none

end Data

end Marginalia
